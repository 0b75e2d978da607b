import Criteria.Proofs.Time.Dated

set_option autoImplicit false

/-! # Written dates and moments are read back

What is written for a date is a plain date with its numbers, so it is read as that date
(`readDate?_chars`). What is written for a moment, in the years with four digits, is a moment in the
form of RFC 3339 with the offset of UTC. A leap second is written as the second that follows; this
is second 60, which is read as a leap second, only if it ends its minute
(`Timestamp.LeapEndsMinute`), and so does every moment that is read
(`leapEndsMinute_of_readTimestamp?`). In the middle of a minute it is a second that the clock shows
anyway, so two moments are written alike and the text is read as the plain one of them
(`Timestamp.shown`, `readTimestamp?_chars`). -/

namespace Criteria.Time

open Criteria.Number Criteria.Text
open Payload (Digits Digits.fractionChars)

/-! ## Numbers of a fixed width -/

/-- The digits of a number that has no more than the width. -/
def DigitRun.ofNat {width n : Nat} (hwidth : 0 < width) (h : n < 10 ^ width) :
    DigitRun width width where
  chars := padded width n
  least_le := le_length_padded width n
  le_most := (length_padded hwidth h).le
  isDigit := fun _ => isDigit_of_mem_padded

theorem DigitRun.value_ofNat {width n : Nat} (hwidth : 0 < width) (h : n < 10 ^ width) :
    (ofNat hwidth h).value = n := digitsValue_padded width n

/-! ## Dates -/

theorem Date.day_le (d : Date) : d.day ≤ 31 := by
  obtain ⟨-, -, -, hday⟩ := d.inCalendar
  have hshort : (if isLeap d.year = true then 29 else 28) ≤ 31 := by split <;> decide
  unfold daysInMonth at hday
  split at hday <;> omega

theorem Date.month_lt (d : Date) : d.month < 10 ^ 2 :=
  Nat.lt_of_le_of_lt (month_of_inCalendar d.inCalendar).2 (by decide)

theorem Date.day_lt (d : Date) : d.day < 10 ^ 2 := Nat.lt_of_le_of_lt d.day_le (by decide)

theorem toNat_lt_of_fourDigits {year : Int} (h : 0 ≤ year ∧ year ≤ 9999) :
    year.toNat < 10 ^ 4 := by
  have hpow : 10 ^ 4 = 10000 := rfl
  omega

theorem padded_ne_nil {width n : Nat} (h : 0 < width) : padded width n ≠ [] :=
  List.ne_nil_of_length_pos (Nat.lt_of_lt_of_le h (le_length_padded width n))

/-- A year as it is written. -/
def WrittenYear.ofInt (year : Int) : WrittenYear :=
  if h : 0 ≤ year ∧ year ≤ 9999 then {
    sign := []
    sign_eq := isSign_nil
    digits := ⟨padded 4 year.toNat, padded_ne_nil (Nat.succ_pos 3), fun _ => isDigit_of_mem_padded⟩
    short := fun _ => (length_padded (Nat.succ_pos 3) (toNat_lt_of_fourDigits h)).le }
  else {
    sign := [if year < 0 then '-' else '+']
    sign_eq := by
      split
      · exact Or.inr (Or.inr rfl)
      · exact Or.inr (Or.inl rfl)
    digits := ⟨padded 4 year.natAbs, padded_ne_nil (Nat.succ_pos 3), fun _ => isDigit_of_mem_padded⟩
    short := fun h => absurd h (List.cons_ne_nil _ _) }

theorem WrittenYear.chars_ofInt (year : Int) : (ofInt year).chars = Date.yearChars year := by
  rw [ofInt, Date.yearChars]
  split
  · rfl
  · rfl

theorem WrittenYear.value_ofInt (year : Int) : (ofInt year).value = year := by
  rw [ofInt]
  split
  · next h => rw [value, if_neg (by simp), digitsValue_padded, Int.toNat_of_nonneg h.1]
  · next h =>
      rw [value, digitsValue_padded]
      by_cases hneg : year < 0
      · rw [if_pos (by simp [hneg])]
        omega
      · rw [if_neg (by simp [hneg])]
        omega

/-- A date as it is written. -/
def Date.written (d : Date) : WrittenDate where
  year := .ofInt d.year
  beforeMonth := .none
  month := (DigitRun.ofNat (by decide) d.month_lt).shorter
  beforeDay := .none
  day := (DigitRun.ofNat (by decide) d.day_lt).shorter

theorem Date.chars_written (d : Date) : d.written.chars = d.chars := by
  simp [WrittenDate.chars, written, WrittenYear.chars_ofInt, chars, Blanks.none, DigitRun.shorter,
    DigitRun.ofNat]

theorem ofCivil?_self (d : Date) : Date.ofCivil? d.year d.month d.day = some d :=
  dif_pos d.inCalendar

/-- **Dates.** What is written for a date is read as it. -/
theorem readDate?_chars (d : Date) : readDate? d.chars = some d := by
  have htwo : d.written.day.chars.length = 2 :=
    (DigitRun.ofNat (by decide) d.day_lt).length_eq
  have htake : takeDate? (d.written.chars ++ []) = _ := takeDate?_chars d.written (Or.inl htwo)
  have hyear : d.written.year.value = d.year := WrittenYear.value_ofInt d.year
  have hmonth : d.written.month.value = d.month := DigitRun.value_ofNat (by decide) d.month_lt
  have hday : d.written.day.value = d.day := DigitRun.value_ofNat (by decide) d.day_lt
  rw [d.chars_written, List.append_nil, hyear, hmonth, hday, ofCivil?_self,
    Option.map_some] at htake
  rw [readDate?, htake]
  rfl

/-- In the years with four digits, a date as it is written has all its digits. -/
theorem exists_fullDate {d : Date} (h : 0 ≤ d.year ∧ d.year ≤ 9999) :
    ∃ w : FullDate, w.chars = d.chars ∧ ∃ hexists : w.Exists, w.date hexists = d := by
  have hyear := toNat_lt_of_fourDigits h
  refine ⟨⟨.ofNat (by decide) hyear, .ofNat (by decide) d.month_lt, .ofNat (by decide) d.day_lt⟩,
    ?_, ?_⟩
  · simp [FullDate.chars, DigitRun.ofNat, Date.chars, Date.yearChars, h]
  · have hnumber : (d.year.toNat : Int) = d.year := Int.toNat_of_nonneg h.1
    have hexists : InCalendar d.year.toNat d.month d.day := by
      rw [hnumber]
      exact d.inCalendar
    refine ⟨by simpa only [FullDate.Exists, DigitRun.value_ofNat] using hexists, ?_⟩
    cases d
    simpa [FullDate.date, DigitRun.value_ofNat] using hnumber

/-! ## Fractions -/

/-- A fraction of so many digits. -/
theorem exists_fraction_padded {width n : Nat} (hwidth : 0 < width) (hnine : width ≤ 9)
    (h : n < 10 ^ width) : ∃ f : Option Digits, Digits.fractionChars f = '.' :: padded width n ∧
      fractionNanos f = n * 10 ^ (9 - width) := by
  have hlength := length_padded hwidth h
  refine ⟨some ⟨padded width n, padded_ne_nil hwidth, fun _ => isDigit_of_mem_padded⟩, rfl, ?_⟩
  rw [fractionNanos, List.take_of_length_le (hlength.trans_le hnine), digitsValue_padded, hlength]

/-- What is written for the nanoseconds of a second is a fraction with that many. -/
theorem exists_fraction {nano : Nat} (h : nano < nanosPerSecond) :
    ∃ f : Option Digits, Digits.fractionChars f = Timestamp.fractionChars nano ∧
      fractionNanos f = nano := by
  have hsecond : nanosPerSecond = 1000000000 := rfl
  rw [Timestamp.fractionChars]
  split
  · next hzero => exact ⟨none, rfl, hzero.symm⟩
  · split
    · next hmillis =>
        obtain ⟨f, hchars, hnanos⟩ := exists_fraction_padded (show 0 < 3 by decide) (by decide)
          (show nano / 1000000 < 10 ^ 3 by omega)
        exact ⟨f, hchars, by omega⟩
    · split
      · next hmicros =>
          obtain ⟨f, hchars, hnanos⟩ := exists_fraction_padded (show 0 < 6 by decide) (by decide)
            (show nano / 1000 < 10 ^ 6 by omega)
          exact ⟨f, hchars, by omega⟩
      · obtain ⟨f, hchars, hnanos⟩ := exists_fraction_padded (show 0 < 9 by decide) (by decide)
          (show nano < 10 ^ 9 by omega)
        exact ⟨f, hchars, by omega⟩

/-! ## Leap seconds -/

/-- A leap second ends its minute. -/
def Timestamp.LeapEndsMinute (t : Timestamp) : Prop := t.IsLeap → t.second % 60 = 59

/-- The moment that the text of a moment shows: the moment itself, unless it is a leap second in the
middle of a minute, which is written as the second that follows. -/
def Timestamp.shown (t : Timestamp) : Timestamp :=
  if h : t.IsLeap ∧ t.second % 60 ≠ 59 then
    { date := t.date
      second := t.second + 1
      nano := t.nano - nanosPerSecond
      second_lt := by
        have hsecond := t.second_lt
        omega
      nano_lt := Nat.lt_of_le_of_lt (Nat.sub_le _ _) t.nano_lt }
  else t

theorem Timestamp.shown_eq_self_iff {t : Timestamp} : t.shown = t ↔ t.LeapEndsMinute := by
  rw [shown, LeapEndsMinute]
  split
  · next h =>
      refine iff_of_false ?_ fun hends => h.2 (hends h.1)
      intro heq
      exact absurd (congrArg Timestamp.second heq) (Nat.succ_ne_self t.second)
  · next h => exact iff_of_true rfl fun hleap => not_not.1 fun hsecond => h ⟨hleap, hsecond⟩

/-- What a clock shows is a leap second only as second 60. -/
theorem leapEndsMinute_of_ofClock? {date : Date} {hour minute second nano : Nat} {t : Timestamp}
    (hnano : nano < nanosPerSecond)
    (h : Timestamp.ofClock? date hour minute second nano = some t) : t.LeapEndsMinute := by
  intro hleap
  obtain ⟨t', ht', -, hsecond, hnano'⟩ :=
    ofClock?_of_onClock date ((exists_ofClock?_iff date hnano).1 ⟨t, h⟩) hnano
  obtain rfl := Option.some.inj (h.symm.trans ht')
  rw [Timestamp.IsLeap, hnano'] at hleap
  split at hleap
  · next hsixty => omega
  · exact absurd hleap (Nat.not_le.2 hnano)

theorem leapEndsMinute_of_takeClock? {date : Date} {t : Timestamp} {cs : List Char}
    (h : takeClock? date cs = some (t, [])) : t.LeapEndsMinute := by
  obtain ⟨w, rfl, -⟩ := (exists_takeClock?_iff date).1 ⟨t, h⟩
  rw [takeClock?_chars] at h
  obtain ⟨u, hu, heq⟩ := Option.map_eq_some_iff.1 h
  obtain ⟨rfl, -⟩ := Prod.mk.inj heq
  exact leapEndsMinute_of_ofClock? (fractionNanos_lt w.fraction) hu

theorem leapEndsMinute_of_takeFullClock? {date : Date} {t : Timestamp} {cs rest : List Char}
    (hrest : Closed rest) (h : takeFullClock? date cs = some (t, rest)) : t.LeapEndsMinute := by
  obtain ⟨-, w, rfl, -⟩ := takeFullClock?_sound h
  rw [takeFullClock?_chars _ w hrest] at h
  obtain ⟨u, hu, heq⟩ := Option.map_eq_some_iff.1 h
  obtain ⟨rfl, -⟩ := Prod.mk.inj heq
  exact leapEndsMinute_of_ofClock? (fractionNanos_lt w.fraction) hu

/-- Offsets are whole minutes. -/
theorem WrittenOffset.sixty_dvd_seconds (o : WrittenOffset) : 60 ∣ o.seconds := by
  cases o with
  | utc mark hmark => exact Int.dvd_zero 60
  | away sign hsign hours minutes =>
      rw [seconds]
      split <;> omega

/-- Whole minutes earlier, a second has the same place in its minute. -/
theorem leapEndsMinute_of_earlier? {t earlier : Timestamp} {count : Int}
    (hcount : -86400 < count ∧ count < 86400) (hminutes : 60 ∣ count)
    (ht : t.LeapEndsMinute) (h : t.earlier? count = some earlier) : earlier.LeapEndsMinute := by
  intro hleap
  obtain ⟨hseconds, hnano⟩ := Timestamp.seconds_of_earlier? hcount h
  have hplace := ht (by rwa [Timestamp.IsLeap, ← hnano])
  have hday : (secondsPerDay : Int) = 86400 := rfl
  rw [Timestamp.seconds, Timestamp.seconds, hday] at hseconds
  omega

/-- A moment that is read is a leap second only at the end of a minute. -/
theorem leapEndsMinute_of_readTimestamp? {cs : List Char} {t : Timestamp}
    (h : readTimestamp? cs = some t) : t.LeapEndsMinute := by
  have hwhole : ∀ {u : Timestamp} {rest : List Char}, whole? (u, rest) = some t →
      u = t ∧ rest = [] := by
    intro u rest hu
    cases rest with
    | nil => exact ⟨Option.some.inj hu, rfl⟩
    | cons c rest => cases hu
  rw [readTimestamp?, Option.or_eq_some_iff, Option.or_eq_some_iff, Option.or_eq_some_iff] at h
  rcases h with h | ⟨-, h | ⟨-, h | ⟨-, h⟩⟩⟩
  · obtain ⟨o, hread, hmoment⟩ := Option.bind_eq_some_iff.1 h
    simp only [readOffsetted?, Option.bind_eq_bind, Option.bind_eq_some_iff, Option.pure_def,
      Option.some.injEq, Prod.exists] at hread
    obtain ⟨_, _, _, _, _, clock, rest, hclock, offset, hoffset, rfl⟩ := hread
    obtain ⟨hbounds, w, rfl, hrange⟩ := readOffset?_sound hoffset
    obtain rfl := Option.some.inj ((readOffset?_chars hrange).symm.trans hoffset)
    exact leapEndsMinute_of_earlier? hbounds w.sixty_dvd_seconds
      (leapEndsMinute_of_takeFullClock? w.closed_chars hclock) hmoment
  · simp only [readMarked?, Option.bind_eq_bind, Option.bind_eq_some_iff, Prod.exists] at h
    obtain ⟨_, _, _, _, _, u, rest, hclock, hu⟩ := h
    obtain ⟨rfl, rfl⟩ := hwhole hu
    exact leapEndsMinute_of_takeClock? hclock
  · simp only [readSpaced?, Option.bind_eq_bind, Option.bind_eq_some_iff, Prod.exists] at h
    obtain ⟨_, _, _, u, rest, hclock, hu⟩ := h
    obtain ⟨rfl, rfl⟩ := hwhole hu
    exact leapEndsMinute_of_takeClock? hclock
  · obtain ⟨d, -, rfl⟩ := Option.map_eq_some_iff.1 h
    intro hleap
    exact absurd hleap (Nat.not_le.2 (by decide : (0 : Nat) < nanosPerSecond))

/-! ## Moments -/

/-- The offset of UTC as it is written. -/
def WrittenOffset.zero : WrittenOffset :=
  .away '+' plus_sign (.ofNat (by decide) (show 0 < 10 ^ 2 by decide))
    (.ofNat (by decide) (show 0 < 10 ^ 2 by decide))

theorem WrittenOffset.inRange_zero : zero.InRange := by
  simp [zero, InRange, DigitRun.value_ofNat]

theorem WrittenOffset.seconds_zero : zero.seconds = 0 := by
  simp [zero, seconds, DigitRun.value_ofNat]

theorem Timestamp.earlier?_zero (t : Timestamp) : t.earlier? 0 = some t := by
  have hsecond := t.second_lt
  have hday : secondsPerDay = 86400 := rfl
  simp only [earlier?, Int.sub_zero]
  rw [if_neg (by omega), if_neg (by rw [hday]; omega), Int.toNat_natCast, ofParts?,
    dif_pos ⟨t.second_lt, t.nano_lt⟩]

/-- A leap second has one more second of nanoseconds. -/
theorem Timestamp.leap_cases (t : Timestamp) :
    (t.nano / nanosPerSecond = 0 ∧ t.nano % nanosPerSecond = t.nano) ∨
      (t.nano / nanosPerSecond = 1 ∧ t.nano % nanosPerSecond + nanosPerSecond = t.nano ∧
        t.IsLeap) := by
  have hnano := t.nano_lt
  rw [IsLeap, nanosPerSecond]
  omega

theorem Timestamp.leap_le_one (t : Timestamp) : t.nano / nanosPerSecond ≤ 1 := by
  rcases t.leap_cases with ⟨hzero, -⟩ | ⟨hone, -, -⟩
  · exact hzero.le.trans (Nat.zero_le 1)
  · exact hone.le

/-- The hour, minute, second and fraction that are written for a moment, read off a clock. -/
theorem Timestamp.ofClock?_written (t : Timestamp) :
    ofClock? t.date (t.second / 3600) (t.second / 60 % 60)
      (t.second % 60 + t.nano / nanosPerSecond) (t.nano % nanosPerSecond) = some t.shown := by
  have hsecond := t.second_lt
  have hfraction := Nat.mod_lt t.nano (show 0 < nanosPerSecond by decide)
  have honClock : OnClock (t.second / 3600) (t.second / 60 % 60)
      (t.second % 60 + t.nano / nanosPerSecond) := by
    have hleap := t.leap_le_one
    exact ⟨by omega, by omega, by omega⟩
  obtain ⟨u, hu, hdate, huSecond, huNano⟩ := ofClock?_of_onClock t.date honClock hfraction
  rw [hu, shown]
  rcases t.leap_cases with ⟨hzero, hplain⟩ | ⟨hone, hextra, hleap⟩
  · have hnotLeap : ¬t.IsLeap := by
      rw [IsLeap]
      omega
    rw [hzero] at huSecond huNano
    rw [dif_neg fun h => hnotLeap h.1]
    refine congrArg some (ext_parts hdate (by omega) ?_)
    rw [huNano, if_neg (by omega), hplain]
  · rw [hone] at huSecond huNano
    by_cases hends : t.second % 60 = 59
    · rw [dif_neg fun h => h.2 hends]
      refine congrArg some (ext_parts hdate (by omega) ?_)
      rw [huNano, if_pos (by omega), hextra]
    · -- the clock shows the next second, which is not the sixtieth
      rw [dif_pos ⟨hleap, hends⟩]
      refine congrArg some (ext_parts hdate (by dsimp only; omega) ?_)
      rw [huNano, if_neg (by omega)]
      exact Nat.eq_sub_of_add_eq hextra

/-- The time of day that is written for a moment is on a clock, which shows the moment that its text
shows. -/
theorem exists_fullClock (t : Timestamp) : ∃ w : FullClock,
    t.chars = t.date.chars ++ 'T' :: (w.chars ++ WrittenOffset.zero.chars) ∧
      w.on? t.date = some t.shown := by
  have hsecond := t.second_lt
  have hleap := t.leap_le_one
  have hhour : t.second / 3600 < 10 ^ 2 := by omega
  have hminute : t.second / 60 % 60 < 10 ^ 2 := by omega
  have hshown : t.second % 60 + t.nano / nanosPerSecond < 10 ^ 2 := by omega
  obtain ⟨f, hfraction, hnanos⟩ :=
    exists_fraction (Nat.mod_lt t.nano (show 0 < nanosPerSecond by decide))
  refine ⟨⟨.ofNat (by decide) hhour, .ofNat (by decide) hminute, .ofNat (by decide) hshown, f⟩,
    ?_, ?_⟩
  · simp [Timestamp.chars, FullClock.chars, DigitRun.ofNat, hfraction, WrittenOffset.zero,
      WrittenOffset.chars, padded, natDigits]
  · simp only [FullClock.on?, DigitRun.value_ofNat, hnanos]
    exact t.ofClock?_written

/-- **Moments.** What is written for a moment in the years with four digits is read as the moment
that it shows. -/
theorem readTimestamp?_chars {t : Timestamp} (h : 0 ≤ t.date.year ∧ t.date.year ≤ 9999) :
    readTimestamp? t.chars = some t.shown := by
  obtain ⟨w, hchars, hexists, hdate⟩ := exists_fullDate h
  obtain ⟨clock, htext, hclock⟩ := exists_fullClock t
  rw [← hdate] at hclock
  have hread := readOffsetted?_chars hexists (Or.inl rfl) WrittenOffset.inRange_zero hclock
  rw [htext, ← hchars, readTimestamp?, readMoment?, hread, Option.bind_some, Offsetted.moment?,
    WrittenOffset.seconds_zero, Timestamp.earlier?_zero, Option.some_or]

end Criteria.Time
