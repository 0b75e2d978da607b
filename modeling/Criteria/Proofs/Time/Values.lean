import Criteria.Proofs.Number.Padded
import Criteria.Proofs.Time.Instants

set_option autoImplicit false

/-! # Days and moments that texts write

What a written date, time of day or offset is read as, part by part. A date comes to the day with
its numbers, or to nothing if there is no such day (`takeDate?_chars`, `takeFullDate?_chars`). A
time of day comes to what the clock shows, and a fraction to its nanoseconds (`takeClock?_chars`,
`takeFullClock?_chars`); an offset comes to its seconds (`readOffset?_chars`). To take an offset off
moves a moment by just as many seconds on the time line, over the ends of days, months and years
(`seconds_of_earlier?`). -/

namespace Criteria.Time

open Criteria.Number Criteria.Text
open Payload (Digits Digits.fractionChars startsWithDigit takeDigits_of_isDigit)

variable {rest : List Char}

/-! ## Dates -/

theorem after?_cons (mark : Char) (cs : List Char) : after? mark (mark :: cs) = some cs :=
  after?_eq_some_iff.2 rfl

/-- A digit less would do. -/
def DigitRun.shorter {least most : Nat} (r : DigitRun (least + 1) most) : DigitRun least most :=
  ⟨r.chars, Nat.le_of_succ_le r.least_le, r.le_most, r.isDigit⟩

theorem DigitRun.ne_nil {least most : Nat} (r : DigitRun (least + 1) most) : r.chars ≠ [] :=
  List.ne_nil_of_length_pos (Nat.lt_of_lt_of_le (Nat.succ_pos least) r.least_le)

theorem DigitRun.length_eq {count : Nat} (r : DigitRun count count) : r.chars.length = count :=
  Nat.le_antisymm r.le_most r.least_le

theorem takeExact?_chars {count : Nat} (r : DigitRun count count) (rest : List Char) :
    takeExact? count (r.chars ++ rest) = some (r.value, rest) :=
  takeExact?_eq_some_iff.2 ⟨r, rfl, rfl⟩

theorem takeShort?_chars (b : Blanks) (r : DigitRun 1 2)
    (h : r.chars.length = 2 ∨ startsWithDigit rest = false) :
    takeShort? (b.chars ++ (r.chars ++ rest)) = some (r.value, rest) :=
  takeShort?_eq_some_iff.2 ⟨b, r, rfl, rfl, h⟩

theorem takeShort?_mark (b : Blanks) (r : DigitRun 1 2) {mark : Char} (h : mark.isDigit = false) :
    takeShort? (b.chars ++ (r.chars ++ mark :: rest)) = some (r.value, mark :: rest) :=
  takeShort?_chars b r (Or.inr h)

/-- A plain date is taken off as the day that it writes, if there is one. -/
theorem takeDate?_chars (w : WrittenDate)
    (h : w.day.chars.length = 2 ∨ startsWithDigit rest = false) :
    takeDate? (w.chars ++ rest) =
      (Date.ofCivil? w.year.value w.month.value w.day.value).map (·, rest) := by
  have hyear : takeYear? (w.chars ++ rest) = some (w.year.value, '-' :: (w.beforeMonth.chars ++
      (w.month.chars ++ '-' :: (w.beforeDay.chars ++ (w.day.chars ++ rest))))) :=
    (takeYear?_eq_some_iff (by rfl)).2
      ⟨.none, w.year, by simp [WrittenDate.chars, Blanks.none], rfl⟩
  simp only [takeDate?, hyear, after?_cons, Option.bind_eq_bind, Option.bind_some,
    takeShort?_mark _ _ (show '-'.isDigit = false by decide), takeShort?_chars w.beforeDay w.day h]
  cases Date.ofCivil? w.year.value w.month.value w.day.value <;> rfl

namespace FullDate

/-- A date with all its digits is a plain date. -/
def plain (w : FullDate) : WrittenDate where
  year := {
    sign := []
    sign_eq := isSign_nil
    digits := ⟨w.year.chars, w.year.ne_nil, w.year.isDigit⟩
    short := fun _ => w.year.le_most }
  beforeMonth := .none
  month := w.month.shorter
  beforeDay := .none
  day := w.day.shorter

theorem chars_plain (w : FullDate) : w.plain.chars = w.chars := by
  simp [WrittenDate.chars, WrittenYear.chars, plain, chars, Blanks.none, DigitRun.shorter]

/-- The day that a date writes, if it exists. -/
def date? (w : FullDate) : Option Date := Date.ofCivil? w.year.value w.month.value w.day.value

theorem date?_plain (w : FullDate) :
    Date.ofCivil? w.plain.year.value w.plain.month.value w.plain.day.value = w.date? := rfl

/-- The day that a date writes. -/
def date (w : FullDate) (h : w.Exists) : Date := ⟨w.year.value, w.month.value, w.day.value, h⟩

theorem date?_of_exists {w : FullDate} (h : w.Exists) : w.date? = some (w.date h) := dif_pos h

theorem date?_of_not_exists {w : FullDate} (h : ¬ w.Exists) : w.date? = none := dif_neg h

end FullDate

theorem takeDate?_fullDate (w : FullDate) (rest : List Char) :
    takeDate? (w.chars ++ rest) = w.date?.map (·, rest) := by
  rw [← w.chars_plain, takeDate?_chars w.plain (Or.inl w.day.length_eq), w.date?_plain]

/-- A date with all its digits is taken off as the day that it writes, if there is one. -/
theorem takeFullDate?_chars (w : FullDate) (rest : List Char) :
    takeFullDate? (w.chars ++ rest) = w.date?.map (·, rest) := by
  simp only [takeFullDate?, FullDate.chars, List.append_assoc, List.cons_append, takeExact?_chars,
    after?_cons, Option.bind_eq_bind, Option.bind_some]
  cases hdate : w.date? <;> rw [FullDate.date?] at hdate <;> rw [hdate] <;> rfl

/-! ## Times of day -/

/-- The nanoseconds of a fraction; digits behind the ninth do not count. -/
def fractionNanos : Option Digits → Nat
  | none => 0
  | some d => digitsValue (d.chars.take 9) * 10 ^ (9 - d.chars.length)

theorem takeFraction?_chars (f : Option Digits) (hrest : Closed rest) :
    takeFraction? (Digits.fractionChars f ++ rest) = some (fractionNanos f, rest) := by
  cases f with
  | none =>
      rw [Digits.fractionChars, List.nil_append]
      unfold takeFraction?
      split
      · exact absurd rfl (hrest '.' rfl).2
      · rfl
  | some d =>
      have hne : ¬ d.chars.isEmpty = true := by simpa using d.ne_nil
      rw [Digits.fractionChars, List.cons_append, takeFraction?,
        takeDigits_of_isDigit d.isDigit hrest.startsWithDigit]
      dsimp only
      rw [if_neg hne]
      rfl

theorem fractionNanos_lt (f : Option Digits) : fractionNanos f < nanosPerSecond :=
  (takeFraction?_sound (takeFraction?_chars f (show Closed [] by simp [Closed]))).1

theorem closed_nil : Closed [] := by simp [Closed]

theorem Timestamp.eq_of_ofParts? {date : Date} {second nano : Nat} {t : Timestamp}
    (h : ofParts? date second nano = some t) :
    t.date = date ∧ t.second = second ∧ t.nano = nano := by
  unfold ofParts? at h
  split at h
  · obtain rfl := Option.some.inj h
    exact ⟨rfl, rfl, rfl⟩
  · cases h

/-- What the clock shows, in numbers; second 60 is the leap second behind the one before it. -/
theorem ofClock?_of_onClock (date : Date) {hour minute second nano : Nat}
    (h : OnClock hour minute second) (hnano : nano < nanosPerSecond) :
    ∃ t, Timestamp.ofClock? date hour minute second nano = some t ∧ t.date = date ∧
      t.second = hour * 3600 + minute * 60 + min second 59 ∧
      t.nano = if second = 60 then nano + nanosPerSecond else nano := by
  obtain ⟨t, ht⟩ := (exists_ofClock?_iff date hnano).2 h
  refine ⟨t, ht, date_of_ofClock? ht, ?_⟩
  rw [Timestamp.ofClock?, if_pos h] at ht
  exact (Timestamp.eq_of_ofParts? ht).2

/-- A plain time of day at the end of a text comes to what the clock shows. -/
theorem takeClock?_chars (date : Date) (w : WrittenClock) :
    takeClock? date w.chars = (Timestamp.ofClock? date w.hour.value w.minute.value w.second.value
      (fractionNanos w.fraction)).map (·, []) := by
  have hends : startsWithDigit (Digits.fractionChars w.fraction) = false := by
    cases w.fraction <;> rfl
  have hfraction := takeFraction?_chars w.fraction closed_nil
  rw [List.append_nil] at hfraction
  simp only [takeClock?, WrittenClock.chars, after?_cons, Option.bind_eq_bind, Option.bind_some,
    takeShort?_mark _ _ (show ':'.isDigit = false by decide),
    takeShort?_chars w.beforeSecond w.second (Or.inr hends), hfraction]
  cases Timestamp.ofClock? date w.hour.value w.minute.value w.second.value
    (fractionNanos w.fraction) <;> rfl

namespace FullClock

/-- What the clock shows on a date. -/
def on? (w : FullClock) (date : Date) : Option Timestamp :=
  Timestamp.ofClock? date w.hour.value w.minute.value w.second.value (fractionNanos w.fraction)

/-- A time of day with all its digits is a plain one; blanks may stand in front of it. -/
def plain (w : FullClock) (before : Blanks) : WrittenClock where
  beforeHour := before
  hour := w.hour.shorter
  beforeMinute := .none
  minute := w.minute.shorter
  beforeSecond := .none
  second := w.second.shorter
  fraction := w.fraction

theorem chars_plain (w : FullClock) (before : Blanks) :
    (w.plain before).chars = before.chars ++ w.chars := by
  simp [WrittenClock.chars, plain, chars, Blanks.none, DigitRun.shorter]

end FullClock

theorem takeClock?_fullClock (date : Date) (w : FullClock) (before : Blanks) :
    takeClock? date (before.chars ++ w.chars) = (w.on? date).map (·, []) := by
  rw [← w.chars_plain, takeClock?_chars]
  rfl

/-- A time of day with all its digits is taken off as what the clock shows. -/
theorem takeFullClock?_chars (date : Date) (w : FullClock) (hrest : Closed rest) :
    takeFullClock? date (w.chars ++ rest) = (w.on? date).map (·, rest) := by
  simp only [takeFullClock?, FullClock.chars, List.append_assoc, List.cons_append, takeExact?_chars,
    after?_cons, Option.bind_eq_bind, Option.bind_some, takeFraction?_chars w.fraction hrest]
  cases hclock : w.on? date <;> rw [FullClock.on?] at hclock <;> rw [hclock] <;> rfl

/-! ## Offsets -/

theorem WrittenOffset.plus_sign : '+' = '+' ∨ '+' = '-' ∨ '+' = '\u2212' := Or.inl rfl

/-- The seconds of an offset. -/
def WrittenOffset.seconds : WrittenOffset → Int
  | utc _ _ => 0
  | away sign _ hours minutes =>
      if sign = '+' then ((hours.value * 3600 + minutes.value * 60 : Nat) : Int)
      else -((hours.value * 3600 + minutes.value * 60 : Nat) : Int)

theorem isWest?_sign {sign : Char} (h : sign = '+' ∨ sign = '-' ∨ sign = '\u2212') :
    isWest? sign = some (decide (sign ≠ '+')) := by
  rcases h with rfl | rfl | rfl <;> rfl

theorem readOffset?_chars {o : WrittenOffset} (h : o.InRange) :
    readOffset? o.chars = some o.seconds := by
  cases o with
  | utc mark hmark =>
      rw [WrittenOffset.chars, readOffset?, if_pos hmark]
      rfl
  | away sign hsign hours minutes =>
      have hdistance := readDistance?_eq_some_iff.2 ⟨hours, minutes, rfl, h, rfl⟩
      have hnone : ¬ (sign = 'Z' ∨ sign = 'z') := by
        rcases hsign with rfl | rfl | rfl <;> decide
      rw [WrittenOffset.chars, readOffset?, if_neg hnone, isWest?_sign hsign, Option.bind_some,
        hdistance, Option.map_some, WrittenOffset.seconds]
      by_cases hplus : sign = '+'
      · rw [if_pos hplus, if_neg (by simpa using hplus)]
      · rw [if_neg hplus, if_pos (by simpa using hplus)]

theorem WrittenOffset.seconds_bounds {o : WrittenOffset} (h : o.InRange) :
    -86400 < o.seconds ∧ o.seconds < 86400 :=
  (readOffset?_sound (readOffset?_chars h)).1

/-! ## Offsets taken off -/

/-- The day before has the number before. -/
theorem Date.dayNumber_previous? {d previous : Date} (h : d.previous? = some previous) :
    previous.dayNumber = d.dayNumber - 1 := by
  obtain ⟨-, -, hfirst, -⟩ := d.inCalendar
  obtain ⟨hmonth, -⟩ := month_of_inCalendar d.inCalendar
  unfold previous? at h
  split at h
  · obtain ⟨-, hy, hm, hd⟩ := ofCivil?_eq_some_iff.1 h
    rw [dayNumber, dayNumber, hy, hm, hd]
    omega
  · split at h
    · obtain ⟨-, hy, hm, hd⟩ := ofCivil?_eq_some_iff.1 h
      obtain ⟨month, hmonth'⟩ : ∃ month, d.month = month + 1 := ⟨d.month - 1, by omega⟩
      rw [dayNumber, dayNumber, hy, hm, hd, hmonth', Nat.add_sub_cancel, daysBeforeMonth]
      omega
    · obtain ⟨-, hy, hm, hd⟩ := ofCivil?_eq_some_iff.1 h
      have hyear := daysBeforeYear_succ (d.year - 1)
      have hend := daysBeforeMonth_end (d.year - 1)
      have hjanuary : daysBeforeMonth d.year d.month = 0 := by
        rw [show d.month = 1 by omega]
        rfl
      have hdecember : daysInMonth (d.year - 1) 12 = 31 := rfl
      rw [Int.sub_add_cancel] at hyear
      rw [daysBeforeMonth, hdecember] at hend
      rw [dayNumber, dayNumber, hy, hm, hd, hyear, ← hend, hjanuary]
      omega

/-- An earlier moment is so many seconds before, as far into its second. -/
theorem Timestamp.seconds_of_earlier? {t earlier : Timestamp} {count : Int}
    (hcount : -86400 < count ∧ count < 86400) (h : t.earlier? count = some earlier) :
    earlier.seconds = t.seconds - count ∧ earlier.nano = t.nano := by
  have hsecond := t.second_lt
  have hday : (secondsPerDay : Int) = 86400 := rfl
  unfold earlier? at h
  dsimp only at h
  split at h
  · obtain ⟨date, hdate, h⟩ := Option.bind_eq_some_iff.1 h
    obtain ⟨hdate', hsecond', hnano⟩ := eq_of_ofParts? h
    refine ⟨?_, hnano⟩
    rw [seconds, seconds, hdate', hsecond', Date.dayNumber_previous? hdate, hday]
    omega
  · split at h
    · obtain ⟨date, hdate, h⟩ := Option.bind_eq_some_iff.1 h
      obtain ⟨hdate', hsecond', hnano⟩ := eq_of_ofParts? h
      refine ⟨?_, hnano⟩
      rw [seconds, seconds, hdate', hsecond', Date.dayNumber_next? hdate, hday]
      omega
    · obtain ⟨hdate', hsecond', hnano⟩ := eq_of_ofParts? h
      refine ⟨?_, hnano⟩
      rw [seconds, seconds, hdate', hsecond']
      omega

end Criteria.Time
