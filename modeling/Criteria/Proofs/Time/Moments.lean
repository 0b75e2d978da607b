import Criteria.Proofs.Time.Plain
import Mathlib.Tactic.IntervalCases

set_option autoImplicit false

/-! # Moments in texts

The form of RFC 3339 has all its digits and an offset (`WrittenMoment`). What is read in it has its
moment within the dates that are covered, whatever the offset (`exists_moment?`), so the form and
the calendar alone decide. With the plain forms this settles which texts are read as a date or as a
moment (`exists_readDay?_iff`, `exists_readTimestamp?_iff`). -/

namespace Criteria.Time

open Criteria.Number Criteria.Text
open Payload (Digits Digits.fractionChars)

variable {cs rest : List Char}

/-! ## The form of RFC 3339 -/

/-- An offset as a text writes it. -/
inductive WrittenOffset where
  | utc (mark : Char) (mark_eq : mark = 'Z' ∨ mark = 'z')
  | away (sign : Char) (sign_eq : sign = '+' ∨ sign = '-' ∨ sign = '\u2212')
      (hours minutes : DigitRun 2 2)

namespace WrittenOffset

/-- The text of an offset. -/
def chars : WrittenOffset → List Char
  | utc mark _ => [mark]
  | away sign _ hours minutes => sign :: (hours.chars ++ ':' :: minutes.chars)

/-- The offset is less than a day. -/
def InRange : WrittenOffset → Prop
  | utc _ _ => True
  | away _ _ hours minutes => hours.value < 24 ∧ minutes.value < 60

theorem closed_chars (o : WrittenOffset) : Closed o.chars := by
  intro c hc
  cases o with
  | utc mark hmark =>
      obtain rfl : mark = c := by simpa [chars] using hc
      rcases hmark with rfl | rfl
      · decide
      · decide
  | away sign hsign hours minutes =>
      obtain rfl : sign = c := by simpa [chars] using hc
      rcases hsign with rfl | rfl | rfl
      · decide
      · decide
      · decide

end WrittenOffset

theorem readDistance?_eq_some_iff {seconds : Nat} :
    readDistance? cs = some seconds ↔ ∃ hours minutes : DigitRun 2 2,
      cs = hours.chars ++ ':' :: minutes.chars ∧ (hours.value < 24 ∧ minutes.value < 60) ∧
        seconds = hours.value * 3600 + minutes.value * 60 := by
  simp only [readDistance?, Option.bind_eq_bind, Option.bind_eq_some_iff, Prod.exists,
    after?_eq_some_iff, takeExact?_eq_some_iff]
  constructor
  · rintro ⟨hours, cs₁, ⟨h, rfl, rfl⟩, cs₂, rfl, minutes, cs₃, ⟨m, rfl, rfl⟩, hseconds⟩
    split_ifs at hseconds with hrange
    rw [List.isEmpty_iff] at hrange
    obtain ⟨rfl, hrange⟩ := hrange
    exact ⟨h, m, by simp, hrange, (Option.some.inj hseconds).symm⟩
  · rintro ⟨h, m, rfl, hrange, rfl⟩
    exact ⟨_, _, ⟨h, rfl, rfl⟩, _, rfl, _, [], ⟨m, by simp, rfl⟩, if_pos ⟨rfl, hrange⟩⟩

theorem isWest?_eq_some_iff {c : Char} :
    (∃ west, isWest? c = some west) ↔ c = '+' ∨ c = '-' ∨ c = '\u2212' := by
  unfold isWest?
  split_ifs with hplus hminus
  · exact iff_of_true ⟨_, rfl⟩ (Or.inl hplus)
  · exact iff_of_true ⟨_, rfl⟩ (Or.inr hminus)
  · exact iff_of_false (by simp) (not_or.2 ⟨hplus, hminus⟩)

/-- An offset that is read is less than a day. -/
theorem readOffset?_sound {seconds : Int} (h : readOffset? cs = some seconds) :
    (-86400 < seconds ∧ seconds < 86400) ∧ ∃ o : WrittenOffset, o.chars = cs ∧ o.InRange := by
  cases cs with
  | nil => cases h
  | cons c cs =>
      rw [readOffset?] at h
      split_ifs at h with hutc hempty
      · obtain rfl := Option.some.inj h
        have hnil : cs = [] := by simpa using hempty
        exact ⟨by decide, .utc c hutc, by rw [hnil]; rfl, trivial⟩
      · obtain ⟨west, hwest, h⟩ := Option.bind_eq_some_iff.1 h
        obtain ⟨n, hn, rfl⟩ := Option.map_eq_some_iff.1 h
        obtain ⟨hours, minutes, rfl, hrange, rfl⟩ := readDistance?_eq_some_iff.1 hn
        refine ⟨?_, .away c (isWest?_eq_some_iff.1 ⟨west, hwest⟩) hours minutes, rfl, hrange⟩
        obtain ⟨hhours, hminutes⟩ := hrange
        split_ifs <;> omega

theorem exists_readOffset? {o : WrittenOffset} (h : o.InRange) :
    ∃ seconds, readOffset? o.chars = some seconds := by
  cases o with
  | utc mark hmark => exact ⟨0, by rw [WrittenOffset.chars, readOffset?, if_pos hmark]; rfl⟩
  | away sign hsign hours minutes =>
      have hdistance := readDistance?_eq_some_iff.2 ⟨hours, minutes, rfl, h, rfl⟩
      obtain ⟨west, hwest⟩ := isWest?_eq_some_iff.2 hsign
      have hnone : ¬ (sign = 'Z' ∨ sign = 'z') := by
        rcases hsign with rfl | rfl | rfl <;> decide
      rw [WrittenOffset.chars, readOffset?, if_neg hnone, hwest, Option.bind_some, hdistance]
      exact ⟨_, rfl⟩

/-- A date with all its digits, as a text writes it. -/
structure FullDate where
  year : DigitRun 4 4
  month : DigitRun 2 2
  day : DigitRun 2 2

namespace FullDate

/-- The text of a date. -/
def chars (w : FullDate) : List Char :=
  w.year.chars ++ '-' :: (w.month.chars ++ '-' :: w.day.chars)

/-- The day that is written is a day of the calendar. -/
def Exists (w : FullDate) : Prop := InCalendar w.year.value w.month.value w.day.value

end FullDate

theorem takeFullDate?_sound {date : Date} (h : takeFullDate? cs = some (date, rest)) :
    (0 ≤ date.year ∧ date.year < 10000) ∧
      ∃ w : FullDate, cs = w.chars ++ rest ∧ w.Exists := by
  simp only [takeFullDate?, Option.bind_eq_bind, Option.bind_eq_some_iff, Option.pure_def,
    Option.some.injEq, Prod.exists, Prod.mk.injEq, after?_eq_some_iff, takeExact?_eq_some_iff,
    ofCivil?_eq_some_iff] at h
  obtain ⟨year, cs₁, ⟨y, rfl, rfl⟩, cs₂, rfl, month, cs₃, ⟨m, rfl, rfl⟩, cs₄, rfl, day, cs₅,
    ⟨d, rfl, rfl⟩, date', ⟨hexists, hyear, -⟩, rfl, rfl⟩ := h
  refine ⟨?_, ⟨y, m, d⟩, by simp [FullDate.chars], hexists⟩
  have hlt := Payload.ofDigitChars_lt y.isDigit
  have hlength := Nat.pow_le_pow_right (show 0 < 10 by decide) y.le_most
  rw [hyear, DigitRun.value, digitsValue]
  omega

theorem exists_takeFullDate? {w : FullDate} (h : w.Exists) (rest : List Char) :
    ∃ date, takeFullDate? (w.chars ++ rest) = some (date, rest) := by
  simp only [takeFullDate?, Option.bind_eq_bind, Option.bind_eq_some_iff, Option.pure_def,
    Option.some.injEq, Prod.exists, Prod.mk.injEq, after?_eq_some_iff, takeExact?_eq_some_iff,
    ofCivil?_eq_some_iff]
  exact ⟨⟨_, _, _, h⟩, _, _, ⟨w.year, by simp [FullDate.chars], rfl⟩, _, rfl, _, _,
    ⟨w.month, rfl, rfl⟩, _, rfl, _, _, ⟨w.day, rfl, rfl⟩, _, ⟨h, rfl, rfl, rfl⟩, rfl, rfl⟩

/-- A time of day with all its digits, as a text writes it. -/
structure FullClock where
  hour : DigitRun 2 2
  minute : DigitRun 2 2
  second : DigitRun 2 2
  fraction : Option Digits

namespace FullClock

/-- The text of a time of day. -/
def chars (w : FullClock) : List Char :=
  w.hour.chars ++ ':' :: (w.minute.chars ++ ':' :: (w.second.chars ++
    Digits.fractionChars w.fraction))

/-- The time of day that is written is one that a clock shows. -/
def Exists (w : FullClock) : Prop := OnClock w.hour.value w.minute.value w.second.value

end FullClock

theorem takeFullClock?_sound {date : Date} {t : Timestamp}
    (h : takeFullClock? date cs = some (t, rest)) :
    t.date = date ∧ ∃ w : FullClock, cs = w.chars ++ rest ∧ w.Exists := by
  simp only [takeFullClock?, Option.bind_eq_bind, Option.bind_eq_some_iff, Option.pure_def,
    Option.some.injEq, Prod.exists, Prod.mk.injEq, after?_eq_some_iff, takeExact?_eq_some_iff] at h
  obtain ⟨hour, cs₁, ⟨h, rfl, rfl⟩, cs₂, rfl, minute, cs₃, ⟨m, rfl, rfl⟩, cs₄, rfl, second, cs₅,
    ⟨s, rfl, rfl⟩, nano, cs₆, hfraction, t', hclock, rfl, rfl⟩ := h
  obtain ⟨hnano, f, rfl⟩ := takeFraction?_sound hfraction
  exact ⟨date_of_ofClock? hclock, ⟨h, m, s, f⟩, by simp [FullClock.chars],
    (exists_ofClock?_iff _ hnano).1 ⟨t', hclock⟩⟩

theorem exists_takeFullClock? {w : FullClock} (h : w.Exists) (date : Date)
    (hrest : Closed rest) : ∃ t, takeFullClock? date (w.chars ++ rest) = some (t, rest) := by
  obtain ⟨nano, hfraction⟩ := exists_takeFraction? w.fraction hrest
  obtain ⟨t, ht⟩ := (exists_ofClock?_iff date (takeFraction?_sound hfraction).1).2 h
  simp only [takeFullClock?, Option.bind_eq_bind, Option.bind_eq_some_iff, Option.pure_def,
    Option.some.injEq, Prod.exists, Prod.mk.injEq, after?_eq_some_iff, takeExact?_eq_some_iff]
  exact ⟨t, _, _, ⟨w.hour, by simp [FullClock.chars], rfl⟩, _, rfl, _, _, ⟨w.minute, rfl, rfl⟩, _,
    rfl, _, _, ⟨w.second, rfl, rfl⟩, nano, rest, hfraction, t, ht, rfl, rfl⟩

theorem afterMark?_eq_some_iff :
    afterMark? cs = some rest ↔
      ∃ mark, (mark = 'T' ∨ mark = 't' ∨ mark = ' ') ∧ cs = mark :: rest := by
  rw [afterMark?, Option.or_eq_some_iff, Option.or_eq_some_iff, after?_eq_some_iff,
    after?_eq_some_iff, after?_eq_some_iff]
  constructor
  · rintro (rfl | ⟨-, rfl | ⟨-, rfl⟩⟩)
    · exact ⟨'T', Or.inl rfl, rfl⟩
    · exact ⟨'t', Or.inr (Or.inl rfl), rfl⟩
    · exact ⟨' ', Or.inr (Or.inr rfl), rfl⟩
  · rintro ⟨mark, rfl | rfl | rfl, rfl⟩
    · exact Or.inl rfl
    · exact Or.inr ⟨rfl, Or.inl rfl⟩
    · exact Or.inr ⟨rfl, Or.inr ⟨rfl, rfl⟩⟩

/-- A moment as a text writes it in the form of RFC 3339. -/
structure WrittenMoment where
  date : FullDate
  mark : Char
  mark_eq : mark = 'T' ∨ mark = 't' ∨ mark = ' '
  clock : FullClock
  offset : WrittenOffset

namespace WrittenMoment

/-- The text of a moment. -/
def chars (w : WrittenMoment) : List Char :=
  w.date.chars ++ w.mark :: (w.clock.chars ++ w.offset.chars)

/-- The day, the time of day and the offset that are written exist. -/
def Exists (w : WrittenMoment) : Prop := w.date.Exists ∧ w.clock.Exists ∧ w.offset.InRange

end WrittenMoment

/-! ## Moments near a day -/

theorem month_of_inCalendar {year : Int} {month day : Nat} (h : InCalendar year month day) :
    1 ≤ month ∧ month ≤ 12 := by
  obtain ⟨-, -, hpos, hday⟩ := h
  unfold daysInMonth at hday
  split at hday <;> omega

theorem one_le_daysInMonth {year : Int} {month : Nat} (h : 1 ≤ month ∧ month ≤ 12) :
    1 ≤ daysInMonth year month := by
  obtain ⟨hlow, hhigh⟩ := h
  by_cases hshort : month = 2
  · subst hshort
    simp only [daysInMonth]
    split <;> decide
  · interval_cases month <;> first | exact absurd rfl hshort | simp [daysInMonth]

theorem exists_ofCivil?_iff {year : Int} {month day : Nat} :
    (∃ d, Date.ofCivil? year month day = some d) ↔ InCalendar year month day := by
  constructor
  · rintro ⟨d, hd⟩
    exact (ofCivil?_eq_some_iff.1 hd).1
  · intro h
    exact ⟨⟨year, month, day, h⟩, ofCivil?_eq_some_iff.2 ⟨h, rfl, rfl, rfl⟩⟩

/-- Days in these years have neighbours. -/
theorem exists_previous? {d : Date} (h : 0 ≤ d.year) : ∃ d', d.previous? = some d' := by
  have hmonth := month_of_inCalendar d.inCalendar
  obtain ⟨-, hyear, hpos, hday⟩ := d.inCalendar
  unfold Date.previous?
  split_ifs with hfirst hjanuary
  · exact exists_ofCivil?_iff.2 ⟨by omega, hyear, by omega, by omega⟩
  · exact exists_ofCivil?_iff.2 ⟨by omega, hyear, one_le_daysInMonth (by omega), le_refl _⟩
  · exact exists_ofCivil?_iff.2 ⟨by omega, by omega, by decide, le_refl 31⟩

theorem exists_next? {d : Date} (h : d.year < 10000) : ∃ d', d.next? = some d' := by
  have hmonth := month_of_inCalendar d.inCalendar
  obtain ⟨hyear, -, hpos, hday⟩ := d.inCalendar
  unfold Date.next?
  split_ifs with hlast hdecember
  · exact exists_ofCivil?_iff.2 ⟨hyear, by omega, by omega, by omega⟩
  · exact exists_ofCivil?_iff.2 ⟨hyear, by omega, le_refl 1, one_le_daysInMonth (by omega)⟩
  · exact exists_ofCivil?_iff.2 ⟨by omega, by omega, le_refl 1, one_le_daysInMonth (by omega)⟩

theorem exists_parts? (date : Date) {second nano : Nat} (hsecond : second < 86400)
    (hnano : nano < 2000000000) : ∃ t, Timestamp.ofParts? date second nano = some t :=
  ⟨_, dif_pos ⟨hsecond, hnano⟩⟩

/-- What is read has its moment within the dates that are covered. -/
theorem exists_moment? {o : Offsetted} (hyear : 0 ≤ o.clock.date.year ∧ o.clock.date.year < 10000)
    (hoffset : -86400 < o.offset ∧ o.offset < 86400) : ∃ t, o.moment? = some t := by
  have hsecond := o.clock.second_lt
  have hnano := o.clock.nano_lt
  have hday : secondsPerDay = 86400 := rfl
  rw [Offsetted.moment?, Timestamp.earlier?, hday]
  split_ifs with hbefore hafter
  · obtain ⟨date, hdate⟩ := exists_previous? hyear.1
    rw [hdate]
    exact exists_parts? date (by omega) hnano
  · obtain ⟨date, hdate⟩ := exists_next? hyear.2
    rw [hdate]
    exact exists_parts? date (by omega) hnano
  · exact exists_parts? _ (by omega) hnano

/-! ## Forms of whole texts -/

theorem readOffsetted?_sound {o : Offsetted} (h : readOffsetted? cs = some o) :
    (∃ t, o.moment? = some t) ∧ ∃ w : WrittenMoment, w.chars = cs ∧ w.Exists := by
  obtain ⟨⟨date, cs₁⟩, hdate, h⟩ := Option.bind_eq_some_iff.1 h
  obtain ⟨cs₂, hmark, h⟩ := Option.bind_eq_some_iff.1 h
  obtain ⟨⟨clock, cs₃⟩, hclock, h⟩ := Option.bind_eq_some_iff.1 h
  obtain ⟨offset, hoffset, heq⟩ := Option.bind_eq_some_iff.1 h
  obtain rfl := Option.some.inj heq
  obtain ⟨hyear, d, rfl, hd⟩ := takeFullDate?_sound hdate
  obtain ⟨mark, hmark', rfl⟩ := afterMark?_eq_some_iff.1 hmark
  obtain ⟨rfl, c, rfl, hc⟩ := takeFullClock?_sound hclock
  obtain ⟨hrange, o, rfl, ho⟩ := readOffset?_sound hoffset
  exact ⟨exists_moment? hyear hrange, ⟨d, mark, hmark', c, o⟩, rfl, hd, hc, ho⟩

theorem exists_readOffsetted? {w : WrittenMoment} (h : w.Exists) :
    ∃ o, readOffsetted? w.chars = some o := by
  obtain ⟨hdate, hclock, hoffset⟩ := h
  obtain ⟨date, hdate⟩ := exists_takeFullDate? hdate (w.mark :: (w.clock.chars ++ w.offset.chars))
  obtain ⟨t, ht⟩ := exists_takeFullClock? hclock date w.offset.closed_chars
  obtain ⟨seconds, hseconds⟩ := exists_readOffset? hoffset
  have hmark : afterMark? (w.mark :: (w.clock.chars ++ w.offset.chars)) =
      some (w.clock.chars ++ w.offset.chars) := afterMark?_eq_some_iff.2 ⟨w.mark, w.mark_eq, rfl⟩
  refine ⟨⟨t, seconds⟩, ?_⟩
  simp only [readOffsetted?, WrittenMoment.chars, hdate, hmark, ht, hseconds, Option.bind_eq_bind,
    Option.bind_some]
  rfl

theorem exists_readMoment?_iff :
    (∃ t, readMoment? cs = some t) ↔ ∃ w : WrittenMoment, w.chars = cs ∧ w.Exists := by
  constructor
  · rintro ⟨t, ht⟩
    obtain ⟨o, ho, -⟩ := Option.bind_eq_some_iff.1 ht
    exact (readOffsetted?_sound ho).2
  · rintro ⟨w, rfl, hexists⟩
    obtain ⟨o, ho⟩ := exists_readOffsetted? hexists
    obtain ⟨t, ht⟩ := (readOffsetted?_sound ho).1
    exact ⟨t, by rw [readMoment?, ho, Option.bind_some, ht]⟩

/-- One of two readings succeeds. -/
theorem exists_or_eq_some_iff {α : Type} {x y : Option α} :
    (∃ a, x.or y = some a) ↔ (∃ a, x = some a) ∨ ∃ a, y = some a := by
  cases x with
  | none => simp
  | some a => simp

/-- A text is read as a date if it writes a plain one, or a moment in the form of RFC 3339. -/
theorem exists_readDay?_iff (hcs : Trimmed cs) :
    (∃ d, readDay? cs = some d) ↔ (∃ w : WrittenDate, w.chars = cs ∧ w.Exists) ∨
      ∃ w : WrittenMoment, w.chars = cs ∧ w.Exists := by
  rw [readDay?, exists_or_eq_some_iff, exists_readDate?_iff hcs, ← exists_readMoment?_iff]
  refine or_congr_right ?_
  constructor
  · rintro ⟨d, hd⟩
    obtain ⟨o, ho, -⟩ := Option.bind_eq_some_iff.1 hd
    obtain ⟨t, ht⟩ := (readOffsetted?_sound ho).1
    exact ⟨t, by rw [readMoment?, ho, Option.bind_some, ht]⟩
  · rintro ⟨t, ht⟩
    obtain ⟨o, ho, hmoment⟩ := Option.bind_eq_some_iff.1 ht
    exact ⟨o.clock.date, by simp [ho, hmoment]⟩

/-- A text is read as a moment if it writes one in the form of RFC 3339, or a plain date and time
with the mark `T` or with blanks between them, or a plain date. -/
theorem exists_readTimestamp?_iff (hcs : Trimmed cs) :
    (∃ t, readTimestamp? cs = some t) ↔ (∃ w : WrittenMoment, w.chars = cs ∧ w.Exists) ∨
      (∃ (d : WrittenDate) (c : WrittenClock), d.chars ++ 'T' :: c.chars = cs ∧
        d.Exists ∧ c.Exists) ∨
      (∃ (d : WrittenDate) (c : WrittenClock), d.chars ++ c.chars = cs ∧ d.Exists ∧ c.Exists ∧
        (c.beforeHour.chars = [] → d.day.chars.length = 2)) ∨
      ∃ w : WrittenDate, w.chars = cs ∧ w.Exists := by
  rw [readTimestamp?, exists_or_eq_some_iff, exists_or_eq_some_iff, exists_or_eq_some_iff,
    exists_readMoment?_iff, exists_readMarked?_iff hcs, exists_readSpaced?_iff hcs,
    ← exists_readDate?_iff hcs]
  simp only [Option.map_eq_some_iff]
  refine or_congr_right (or_congr_right (or_congr_right ?_))
  constructor
  · rintro ⟨t, d, hd, -⟩
    exact ⟨d, hd⟩
  · rintro ⟨d, hd⟩
    exact ⟨_, d, hd, rfl⟩

end Criteria.Time
