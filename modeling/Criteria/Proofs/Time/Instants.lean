import Criteria.Proofs.Time.Moments

set_option autoImplicit false

/-! # Days and instants in numbers

The days of the calendar are numbered one after another (`Date.dayNumber`, `dayNumber_next?`), and
the calendar order is the order of these numbers (`Date.compare_eq_compare_dayNumber`). With the
seconds of the day they give the seconds of the time line. A leap second comes behind the second that
it belongs to and before the next one, so an instant is told by its second and the nanoseconds since
that second began, of which a leap second has a thousand million more (`Timestamp.instant`). Outside
of leap seconds it is told by its nanoseconds alone (`Timestamp.nanoseconds`). -/

namespace Criteria.Time

/-! ## Digits -/

/-- Numbers are ordered by their quotients, and then by their remainders. -/
theorem compare_then_compare {k r r' : Nat} (h : r < k) (h' : r' < k) (q q' : Int) :
    (Ord.compare q q').then (Ord.compare r r') = Ord.compare (q * k + r) (q' * k + r') := by
  have hless : ∀ {p p' : Int} {s s' : Nat}, s < k → p < p' → p * k + s < p' * k + s' := by
    intro p p' s s' hs hp
    have hmul := Int.mul_le_mul_of_nonneg_right (Int.add_one_le_of_lt hp) (Int.natCast_nonneg k)
    rw [Int.add_mul, Int.one_mul] at hmul
    omega
  rcases Int.lt_trichotomy q q' with hlt | rfl | hgt
  · rw [Int.compare_eq_lt.2 hlt, Int.compare_eq_lt.2 (hless h hlt)]
    rfl
  · rw [Int.compare_eq_eq.2 rfl, Ordering.eq_then]
    rcases Nat.lt_trichotomy r r' with hlt | rfl | hgt
    · rw [Nat.compare_eq_lt.2 hlt, Int.compare_eq_lt.2 (by omega)]
    · rw [Nat.compare_eq_eq.2 rfl, Int.compare_eq_eq.2 rfl]
    · rw [Nat.compare_eq_gt.2 hgt, Int.compare_eq_gt.2 (by omega)]
  · rw [Int.compare_eq_gt.2 hgt, Int.compare_eq_gt.2 (hless h' hgt)]
    rfl

/-! ## Days -/

/-- The number of days from 1 January of the year 1 to 1 January of a year. -/
def daysBeforeYear (year : Int) : Int :=
  365 * (year - 1) + (year - 1) / 4 - (year - 1) / 100 + (year - 1) / 400

/-- The number of days of a year. -/
def daysInYear (year : Int) : Nat := if isLeap year then 366 else 365

/-- The number of days of a year before a month, counted from January as 1. -/
def daysBeforeMonth (year : Int) : Nat → Nat
  | 0 => 0
  | month + 1 => daysBeforeMonth year month + daysInMonth year month

/-- The number of a day, 1 January of the year 1 being day 1. -/
def Date.dayNumber (d : Date) : Int :=
  daysBeforeYear d.year + daysBeforeMonth d.year d.month + d.day

theorem daysBeforeYear_succ (year : Int) :
    daysBeforeYear (year + 1) = daysBeforeYear year + daysInYear year := by
  unfold daysBeforeYear daysInYear isLeap
  split
  · next h =>
      simp only [Bool.and_eq_true, Bool.or_eq_true, beq_iff_eq, bne_iff_ne, ne_eq] at h
      omega
  · next h =>
      simp only [Bool.and_eq_true, Bool.or_eq_true, beq_iff_eq, bne_iff_ne, ne_eq] at h
      omega

theorem daysBeforeYear_mono {year later : Int} (h : year ≤ later) :
    daysBeforeYear year ≤ daysBeforeYear later := by
  obtain ⟨n, rfl⟩ := Int.le.dest h
  induction n with
  | zero => simp
  | succ n ih =>
      rw [Int.natCast_succ, ← Int.add_assoc, daysBeforeYear_succ]
      exact Int.le_trans (ih (Int.le_add_of_nonneg_right (Int.natCast_nonneg n))) (by omega)

theorem daysBeforeMonth_mono (year : Int) {month later : Nat} (h : month ≤ later) :
    daysBeforeMonth year month ≤ daysBeforeMonth year later := by
  induction h with
  | refl => exact Nat.le_refl _
  | step _ ih => exact Nat.le_trans ih (Nat.le_add_right _ _)

/-- A year is as long as its months together. -/
theorem daysBeforeMonth_end (year : Int) : daysBeforeMonth year 13 = daysInYear year := by
  simp only [daysBeforeMonth, daysInMonth, daysInYear]
  split <;> rfl

namespace Date

/-- The day has a place in its year. -/
theorem daysBeforeMonth_add_day_le (d : Date) :
    daysBeforeMonth d.year d.month + d.day ≤ daysInYear d.year := by
  obtain ⟨-, -, -, hday⟩ := d.inCalendar
  obtain ⟨-, hmonth⟩ := month_of_inCalendar d.inCalendar
  have hnext := daysBeforeMonth_mono d.year (Nat.succ_le_succ hmonth)
  rw [← daysBeforeMonth_end]
  exact Nat.le_trans (Nat.add_le_add_left hday _) hnext

/-- Days of earlier months have smaller numbers. -/
theorem daysBeforeMonth_add_day_lt {year : Int} {month day month' day' : Nat}
    (h : InCalendar year month day) (h' : InCalendar year month' day') (hlt : month < month') :
    daysBeforeMonth year month + day < daysBeforeMonth year month' + day' := by
  obtain ⟨-, -, -, hday⟩ := h
  obtain ⟨-, -, hfirst, -⟩ := h'
  have hnext : daysBeforeMonth year month + daysInMonth year month ≤
      daysBeforeMonth year month' := daysBeforeMonth_mono year (Nat.succ_le_of_lt hlt)
  omega

/-- Earlier days have smaller numbers. -/
theorem dayNumber_lt_of_compare {a b : Date} (h : a.compare b = .lt) :
    a.dayNumber < b.dayNumber := by
  have hplace := a.daysBeforeMonth_add_day_le
  obtain ⟨-, -, hfirst, -⟩ := b.inCalendar
  rw [compare] at h
  simp only [Ordering.then_eq_lt, Int.compare_eq_lt, Int.compare_eq_eq, Nat.compare_eq_lt,
    Nat.compare_eq_eq] at h
  unfold dayNumber
  rcases h with hyear | ⟨hyear, hmonth | ⟨hmonth, hday⟩⟩
  · have hnext := daysBeforeYear_mono (Int.add_one_le_of_lt hyear)
    rw [daysBeforeYear_succ] at hnext
    omega
  · have hb := b.inCalendar
    rw [← hyear] at hb
    have hless := daysBeforeMonth_add_day_lt a.inCalendar hb hmonth
    rw [← hyear]
    omega
  · rw [← hyear, ← hmonth]
    omega

theorem compare_swap (a b : Date) : (a.compare b).swap = b.compare a := by
  simp only [compare, Ordering.swap_then, Int.compare_swap, Nat.compare_swap]

theorem compare_eq_eq_iff {a b : Date} : a.compare b = .eq ↔ a = b := by
  rw [compare, Ordering.then_eq_eq, Ordering.then_eq_eq, Int.compare_eq_eq, Nat.compare_eq_eq,
    Nat.compare_eq_eq]
  constructor
  · rintro ⟨hyear, hmonth, hday⟩
    cases a
    cases b
    cases hyear
    cases hmonth
    cases hday
    rfl
  · rintro rfl
    exact ⟨rfl, rfl, rfl⟩

/-- The calendar order is the order of the numbers of days. -/
theorem compare_eq_compare_dayNumber (a b : Date) :
    a.compare b = Ord.compare a.dayNumber b.dayNumber := by
  cases h : a.compare b with
  | lt => exact (Int.compare_eq_lt.2 (dayNumber_lt_of_compare h)).symm
  | eq =>
      rw [compare_eq_eq_iff.1 h]
      exact (Int.compare_eq_eq.2 rfl).symm
  | gt =>
      have hswap : b.compare a = .lt := by
        rw [← compare_swap, h]
        rfl
      exact (Int.compare_eq_gt.2 (dayNumber_lt_of_compare hswap)).symm

/-- The day after has the next number. -/
theorem dayNumber_next? {d next : Date} (h : d.next? = some next) :
    next.dayNumber = d.dayNumber + 1 := by
  obtain ⟨-, -, -, hday⟩ := d.inCalendar
  obtain ⟨-, hmonth⟩ := month_of_inCalendar d.inCalendar
  unfold next? at h
  split at h
  · obtain ⟨-, hy, hm, hd⟩ := ofCivil?_eq_some_iff.1 h
    rw [dayNumber, dayNumber, hy, hm, hd]
    omega
  · split at h
    · obtain ⟨-, hy, hm, hd⟩ := ofCivil?_eq_some_iff.1 h
      rw [dayNumber, dayNumber, hy, hm, hd, daysBeforeMonth]
      omega
    · obtain ⟨-, hy, hm, hd⟩ := ofCivil?_eq_some_iff.1 h
      have hlast : d.month = 12 := by omega
      have hend := daysBeforeMonth_end d.year
      have hfirst : daysBeforeMonth (d.year + 1) 1 = 0 := rfl
      rw [daysBeforeMonth, ← hlast] at hend
      rw [dayNumber, dayNumber, hy, hm, hd, daysBeforeYear_succ, ← hend, hfirst]
      omega

end Date

/-! ## Instants -/

namespace Timestamp

/-- The number of seconds that have begun since 1 January of the year 1, leap seconds aside. -/
def seconds (t : Timestamp) : Int := t.date.dayNumber * secondsPerDay + t.second

/-- The place of a moment on the time line, on which every second has room for a leap second behind
it. -/
def instant (t : Timestamp) : Int := t.seconds * (2 * nanosPerSecond : Nat) + t.nano

/-- The number of nanoseconds that have passed, if the moment is in no leap second. -/
def nanoseconds (t : Timestamp) : Int := t.seconds * nanosPerSecond + t.nano

/-- The moment is in a leap second. -/
def IsLeap (t : Timestamp) : Prop := nanosPerSecond ≤ t.nano

instance (t : Timestamp) : Decidable t.IsLeap := Nat.decLe nanosPerSecond t.nano

theorem compare_eq_then (a b : Timestamp) :
    a.compare b = (Ord.compare a.seconds b.seconds).then (Ord.compare a.nano b.nano) := by
  have hday := compare_then_compare (show a.second < secondsPerDay from a.second_lt)
    (show b.second < secondsPerDay from b.second_lt) a.date.dayNumber b.date.dayNumber
  rw [seconds, seconds, ← hday, compare, Date.compare_eq_compare_dayNumber, Ordering.then_assoc]

theorem ext_parts {a b : Timestamp} (hdate : a.date = b.date) (hsecond : a.second = b.second)
    (hnano : a.nano = b.nano) : a = b := by
  cases a
  cases b
  cases hdate
  cases hsecond
  cases hnano
  rfl

theorem compare_eq_eq_iff {a b : Timestamp} : a.compare b = .eq ↔ a = b := by
  rw [compare, Ordering.then_eq_eq, Ordering.then_eq_eq, Date.compare_eq_eq_iff,
    Nat.compare_eq_eq, Nat.compare_eq_eq]
  constructor
  · rintro ⟨hdate, hsecond, hnano⟩
    exact ext_parts hdate hsecond hnano
  · rintro rfl
    exact ⟨rfl, rfl, rfl⟩

/-- Moments are ordered by their places on the time line. -/
theorem compare_eq_compare_instant (a b : Timestamp) :
    a.compare b = Ord.compare a.instant b.instant := by
  rw [compare_eq_then, instant, instant]
  exact compare_then_compare a.nano_lt b.nano_lt _ _

/-- Outside of leap seconds, moments are ordered by the time that has passed. -/
theorem compare_eq_compare_nanoseconds {a b : Timestamp} (ha : ¬ a.IsLeap) (hb : ¬ b.IsLeap) :
    a.compare b = Ord.compare a.nanoseconds b.nanoseconds := by
  rw [compare_eq_then, nanoseconds, nanoseconds]
  exact compare_then_compare (Nat.not_le.1 ha) (Nat.not_le.1 hb) _ _

end Timestamp

end Criteria.Time
