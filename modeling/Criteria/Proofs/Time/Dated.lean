import Criteria.Proofs.Time.Values

set_option autoImplicit false

/-! # Dated texts

A text with a date in all its digits, and behind it a time of day with an offset, or without one, or
nothing (`DatedText`). It is read as one point of the time line, the time that the clock shows less
the offset of the clock (`readTimestamp?_dated`), and as the date that is written, whatever the
offset (`readDay?_dated`). If the date is missing in the calendar, nothing is read, whatever stands
behind it (`readTimestamp?_of_not_exists`, `readDay?_of_not_exists`). -/

namespace Criteria.Time

open Criteria.Number Criteria.Text
open Payload (Digits Digits.fractionChars startsWithDigit)

/-! ## The texts -/

namespace FullClock

/-- The clock shows a time outside of leap seconds. -/
def InDay (w : FullClock) : Prop := w.hour.value < 24 ∧ w.minute.value < 60 ∧ w.second.value < 60

/-- The seconds since midnight. -/
def seconds (w : FullClock) : Nat := w.hour.value * 3600 + w.minute.value * 60 + w.second.value

end FullClock

/-- What stands behind a date. -/
inductive Tail where
  | bare
  /-- A time of day, which is one of UTC. -/
  | plain (mark : Char) (mark_eq : mark = 'T' ∨ mark = ' ') (clock : FullClock)
  /-- A time of day and the offset of the clock that shows it. -/
  | zoned (mark : Char) (mark_eq : mark = 'T' ∨ mark = 't' ∨ mark = ' ') (clock : FullClock)
      (offset : WrittenOffset)

namespace Tail

/-- The text behind the date. -/
def chars : Tail → List Char
  | bare => []
  | plain mark _ clock => mark :: clock.chars
  | zoned mark _ clock offset => mark :: (clock.chars ++ offset.chars)

/-- There is a time of day and no offset. -/
def IsPlain : Tail → Prop
  | plain _ _ _ => True
  | _ => False

/-- The time of day is outside of leap seconds, and the offset less than a day. -/
def InRange : Tail → Prop
  | bare => True
  | plain _ _ clock => clock.InDay
  | zoned _ _ clock offset => clock.InDay ∧ offset.InRange

/-- The seconds from midnight UTC of the date; they are negative or more than those of a day where
the offset leads to another day. -/
def seconds : Tail → Int
  | bare => 0
  | plain _ _ clock => clock.seconds
  | zoned _ _ clock offset => clock.seconds - offset.seconds

/-- The nanoseconds since the last second. -/
def nano : Tail → Nat
  | bare => 0
  | plain _ _ clock => fractionNanos clock.fraction
  | zoned _ _ clock _ => fractionNanos clock.fraction

end Tail

/-- A date with all its digits, and what stands behind it. -/
structure DatedText where
  date : FullDate
  tail : Tail

namespace DatedText

/-- The characters of the text. -/
def chars (w : DatedText) : List Char := w.date.chars ++ w.tail.chars

/-- The text. -/
def text (w : DatedText) : String := String.ofList w.chars

/-- The date is in the calendar, and what stands behind it is in range. -/
def Exists (w : DatedText) : Prop := w.date.Exists ∧ w.tail.InRange

/-- The instant in nanoseconds since 1 January of the year 1. -/
def instant (w : DatedText) (h : w.Exists) : Int :=
  ((w.date.date h.1).dayNumber * secondsPerDay + w.tail.seconds) * nanosPerSecond + w.tail.nano

end DatedText

/-! ## No blanks at the ends -/

theorem DigitRun.not_isBlank {least most : Nat} (r : DigitRun least most) :
    ∀ c ∈ r.chars, isBlank c = false := fun c hc => not_isBlank_of_isDigit (r.isDigit c hc)

theorem FullDate.not_isBlank (w : FullDate) : ∀ c ∈ w.chars, isBlank c = false := by
  have hhyphen : isBlank '-' = false := by decide
  simp only [chars, List.forall_mem_append, List.forall_mem_cons]
  exact ⟨w.year.not_isBlank, hhyphen, w.month.not_isBlank, hhyphen, w.day.not_isBlank⟩

theorem not_isBlank_fractionChars (f : Option Digits) :
    ∀ c ∈ Digits.fractionChars f, isBlank c = false := by
  cases f with
  | none => simp [Digits.fractionChars]
  | some d =>
      rw [Digits.fractionChars, List.forall_mem_cons]
      exact ⟨by decide, fun c hc => not_isBlank_of_isDigit (d.isDigit c hc)⟩

theorem FullClock.not_isBlank (w : FullClock) : ∀ c ∈ w.chars, isBlank c = false := by
  have hcolon : isBlank ':' = false := by decide
  simp only [chars, List.forall_mem_append, List.forall_mem_cons]
  exact ⟨w.hour.not_isBlank, hcolon, w.minute.not_isBlank, hcolon, w.second.not_isBlank,
    not_isBlank_fractionChars w.fraction⟩

theorem WrittenOffset.not_isBlank (o : WrittenOffset) : ∀ c ∈ o.chars, isBlank c = false := by
  cases o with
  | utc mark hmark =>
      have hmark' : isBlank mark = false := by rcases hmark with rfl | rfl <;> decide
      exact List.forall_mem_singleton.2 hmark'
  | away sign hsign hours minutes =>
      have hcolon : isBlank ':' = false := by decide
      have hsign' : isBlank sign = false := by rcases hsign with rfl | rfl | rfl <;> decide
      simp only [chars, List.forall_mem_append, List.forall_mem_cons]
      exact ⟨hsign', hours.not_isBlank, hcolon, minutes.not_isBlank⟩

theorem FullDate.chars_ne_nil (w : FullDate) : w.chars ≠ [] := by simp [chars]

theorem FullClock.chars_ne_nil (w : FullClock) : w.chars ≠ [] := by simp [chars]

/-- Nothing is dropped at the ends. -/
theorem DatedText.trim_chars (w : DatedText) : trim w.chars = w.chars := by
  obtain ⟨date, tail⟩ := w
  cases tail with
  | bare =>
      rw [chars, Tail.chars, List.append_nil]
      exact trim_of_not_isBlank date.not_isBlank
  | plain mark hmark clock =>
      rw [chars, Tail.chars, ← List.singleton_append]
      exact trim_of_ends date.not_isBlank date.chars_ne_nil clock.not_isBlank clock.chars_ne_nil
        [mark]
  | zoned mark hmark clock offset =>
      have hafter : ∀ c ∈ clock.chars ++ offset.chars, isBlank c = false :=
        List.forall_mem_append.2 ⟨clock.not_isBlank, offset.not_isBlank⟩
      rw [chars, Tail.chars, ← List.singleton_append]
      exact trim_of_ends date.not_isBlank date.chars_ne_nil hafter (by simp [clock.chars_ne_nil])
        [mark]

/-! ## The readers on them -/

section

variable {w : FullDate} {rest : List Char}

theorem takeDate?_of_not_exists (h : ¬ w.Exists) (rest : List Char) :
    takeDate? (w.chars ++ rest) = none := by
  rw [takeDate?_fullDate, FullDate.date?_of_not_exists h, Option.map_none]

theorem takeFullDate?_of_not_exists (h : ¬ w.Exists) (rest : List Char) :
    takeFullDate? (w.chars ++ rest) = none := by
  rw [takeFullDate?_chars, FullDate.date?_of_not_exists h, Option.map_none]

/-- Behind a date that is missing in the calendar, whatever stands there, nothing is read. -/
theorem readTimestamp?_of_not_exists (h : ¬ w.Exists) (rest : List Char) :
    readTimestamp? (w.chars ++ rest) = none := by
  simp only [readTimestamp?, readMoment?, readOffsetted?, readMarked?, readSpaced?, readDate?,
    takeDate?_of_not_exists h, takeFullDate?_of_not_exists h, Option.bind_eq_bind,
    Option.bind_none, Option.map_none, Option.or_none]

theorem readDay?_of_not_exists (h : ¬ w.Exists) (rest : List Char) :
    readDay? (w.chars ++ rest) = none := by
  simp only [readDay?, readOffsetted?, readDate?, takeDate?_of_not_exists h,
    takeFullDate?_of_not_exists h, Option.bind_eq_bind, Option.bind_none, Option.or_none]

theorem takeDate?_of_exists (h : w.Exists) (rest : List Char) :
    takeDate? (w.chars ++ rest) = some (w.date h, rest) := by
  rw [takeDate?_fullDate, FullDate.date?_of_exists h, Option.map_some]

theorem takeFullDate?_of_exists (h : w.Exists) (rest : List Char) :
    takeFullDate? (w.chars ++ rest) = some (w.date h, rest) := by
  rw [takeFullDate?_chars, FullDate.date?_of_exists h, Option.map_some]

end

/-- What a clock outside of leap seconds shows. -/
theorem FullClock.on?_of_inDay {w : FullClock} (h : w.InDay) (date : Date) :
    ∃ t, w.on? date = some t ∧ t.date = date ∧ t.second = w.seconds ∧
      t.nano = fractionNanos w.fraction := by
  obtain ⟨hhour, hminute, hsecond⟩ := h
  obtain ⟨t, ht, hdate, hseconds, hnano⟩ :=
    ofClock?_of_onClock date ⟨hhour, hminute, Nat.le_of_lt hsecond⟩ (fractionNanos_lt w.fraction)
  refine ⟨t, ht, hdate, ?_, ?_⟩
  · rw [hseconds, Nat.min_eq_left (Nat.le_of_lt_succ hsecond), seconds]
  · rw [hnano, if_neg (Nat.ne_of_lt hsecond)]

/-- A time of day and an offset behind a date are read as that time, less the offset. -/
theorem readOffsetted?_chars {w : FullDate} (h : w.Exists) {mark : Char}
    (hmark : mark = 'T' ∨ mark = 't' ∨ mark = ' ') {clock : FullClock} {offset : WrittenOffset}
    (hoffset : offset.InRange) {t : Timestamp} (ht : clock.on? (w.date h) = some t) :
    readOffsetted? (w.chars ++ mark :: (clock.chars ++ offset.chars)) =
      some ⟨t, offset.seconds⟩ := by
  have hafter : afterMark? (mark :: (clock.chars ++ offset.chars)) =
      some (clock.chars ++ offset.chars) := afterMark?_eq_some_iff.2 ⟨mark, hmark, rfl⟩
  simp only [readOffsetted?, takeFullDate?_of_exists h, hafter,
    takeFullClock?_chars _ clock offset.closed_chars, ht, readOffset?_chars hoffset,
    Option.map_some, Option.bind_eq_bind, Option.bind_some, Option.pure_def]

/-- Without an offset there is no form of RFC 3339. -/
theorem readOffsetted?_of_plain {w : FullDate} (h : w.Exists) {mark : Char}
    (hmark : mark = 'T' ∨ mark = ' ') (clock : FullClock) :
    readOffsetted? (w.chars ++ mark :: clock.chars) = none := by
  have hafter : afterMark? (mark :: clock.chars) = some clock.chars :=
    afterMark?_eq_some_iff.2 ⟨mark, hmark.imp_right Or.inr, rfl⟩
  have hclock := takeFullClock?_chars (w.date h) clock closed_nil
  rw [List.append_nil] at hclock
  simp only [readOffsetted?, takeFullDate?_of_exists h, hafter, hclock, Option.bind_eq_bind,
    Option.bind_some]
  cases clock.on? (w.date h) <;> rfl

theorem readMoment?_bare {w : FullDate} (h : w.Exists) : readMoment? w.chars = none := by
  have hdate := takeFullDate?_of_exists h []
  rw [List.append_nil] at hdate
  rw [readMoment?, readOffsetted?, hdate]
  rfl

theorem readTimestamp?_bare {w : FullDate} (h : w.Exists) :
    readTimestamp? w.chars = some (Timestamp.midnight (w.date h)) := by
  have hdate := takeDate?_of_exists h []
  rw [List.append_nil] at hdate
  rw [readTimestamp?, readMoment?_bare h, readMarked?, readSpaced?, readDate?, hdate]
  rfl

theorem readTimestamp?_plain {w : FullDate} (h : w.Exists) {mark : Char}
    (hmark : mark = 'T' ∨ mark = ' ') {clock : FullClock} {t : Timestamp}
    (ht : clock.on? (w.date h) = some t) :
    readTimestamp? (w.chars ++ mark :: clock.chars) = some t := by
  have hclock : ∀ before : Blanks,
      takeClock? (w.date h) (before.chars ++ clock.chars) = some (t, []) := by
    intro before
    rw [takeClock?_fullClock, ht, Option.map_some]
  rw [readTimestamp?, readMoment?, readOffsetted?_of_plain h hmark, Option.bind_none,
    Option.none_or]
  rcases hmark with rfl | rfl
  · have hread : readMarked? (w.chars ++ 'T' :: clock.chars) = some t := by
      have hnone := hclock .none
      rw [Blanks.none, List.nil_append] at hnone
      simp only [readMarked?, takeDate?_of_exists h, after?_cons, hnone, Option.bind_eq_bind,
        Option.bind_some]
      rfl
    rw [hread, Option.some_or]
  · have hskipped : readMarked? (w.chars ++ ' ' :: clock.chars) = none := by
      rw [readMarked?, takeDate?_of_exists h]
      rfl
    have hread : readSpaced? (w.chars ++ ' ' :: clock.chars) = some t := by
      have hblank := hclock ⟨[' '], List.forall_mem_singleton.2 rfl⟩
      rw [List.singleton_append] at hblank
      simp only [readSpaced?, takeDate?_of_exists h, takeClock?_trimStart, hblank,
        Option.bind_eq_bind, Option.bind_some]
      rfl
    rw [hskipped, Option.none_or, hread, Option.some_or]

theorem Tail.nano_lt (tail : Tail) : tail.nano < nanosPerSecond := by
  cases tail with
  | bare => decide
  | plain mark hmark clock => exact fractionNanos_lt clock.fraction
  | zoned mark hmark clock offset => exact fractionNanos_lt clock.fraction

/-- A moment is told by its seconds and nanoseconds. -/
theorem DatedText.instant_of_seconds {w : DatedText} (h : w.Exists) {t : Timestamp}
    (hseconds : t.seconds = (w.date.date h.1).dayNumber * secondsPerDay + w.tail.seconds)
    (hnano : t.nano = w.tail.nano) : ¬ t.IsLeap ∧ t.nanoseconds = w.instant h := by
  refine ⟨?_, ?_⟩
  · rw [Timestamp.IsLeap, hnano, Nat.not_le]
    exact w.tail.nano_lt
  · rw [Timestamp.nanoseconds, hseconds, hnano, instant]

/-- The moment that a text stands for. -/
theorem readTimestamp?_dated {w : DatedText} (h : w.Exists) :
    ∃ t, readTimestamp? w.chars = some t ∧ ¬ t.IsLeap ∧ t.nanoseconds = w.instant h := by
  obtain ⟨date, tail⟩ := w
  have hdate : date.Exists := h.1
  cases tail with
  | bare =>
      refine ⟨Timestamp.midnight (date.date hdate), ?_, DatedText.instant_of_seconds h rfl rfl⟩
      rw [DatedText.chars, Tail.chars, List.append_nil, readTimestamp?_bare hdate]
  | plain mark hmark clock =>
      obtain ⟨t, ht, hday, hsecond, hnano⟩ := FullClock.on?_of_inDay h.2 (date.date hdate)
      refine ⟨t, readTimestamp?_plain hdate hmark ht, DatedText.instant_of_seconds h ?_ hnano⟩
      rw [Timestamp.seconds, hday, hsecond, Tail.seconds]
  | zoned mark hmark clock offset =>
      obtain ⟨hclock, hoffset⟩ : clock.InDay ∧ offset.InRange := h.2
      obtain ⟨t, ht, hday, hsecond, hnano⟩ := FullClock.on?_of_inDay hclock (date.date hdate)
      have hread := readOffsetted?_chars hdate hmark hoffset ht
      obtain ⟨earlier, hearlier⟩ := (readOffsetted?_sound hread).1
      obtain ⟨hseconds, hsame⟩ :=
        Timestamp.seconds_of_earlier? (WrittenOffset.seconds_bounds hoffset) hearlier
      refine ⟨earlier, ?_, DatedText.instant_of_seconds h ?_ (hsame.trans hnano)⟩
      · rw [DatedText.chars, Tail.chars, readTimestamp?, readMoment?, hread, Option.bind_some,
          hearlier, Option.some_or]
      · rw [hseconds, Timestamp.seconds, hday, hsecond, Tail.seconds, Int.add_sub_assoc]

/-- The date that a text stands for, if an offset tells that it has its whole time of day, or if it
has none. -/
theorem readDay?_dated {w : DatedText} (h : w.Exists) (htail : ¬ w.tail.IsPlain) :
    readDay? w.chars = some (w.date.date h.1) := by
  obtain ⟨date, tail⟩ := w
  obtain ⟨hdate, hrange⟩ := h
  cases tail with
  | bare =>
      rw [DatedText.chars, Tail.chars, readDay?, readDate?, takeDate?_of_exists hdate]
      rfl
  | plain mark hmark clock => exact absurd trivial htail
  | zoned mark hmark clock offset =>
      obtain ⟨hclock, hoffset⟩ := hrange
      obtain ⟨t, ht, hday, -⟩ := FullClock.on?_of_inDay hclock (date.date hdate)
      have hread := readOffsetted?_chars hdate hmark hoffset ht
      obtain ⟨earlier, hearlier⟩ := (readOffsetted?_sound hread).1
      have hplain : readDate? (date.chars ++ mark :: (clock.chars ++ offset.chars)) = none := by
        rw [readDate?, takeDate?_of_exists hdate]
        rfl
      rw [DatedText.chars, Tail.chars, readDay?, hplain, hread, Option.none_or]
      simp only [Option.bind_eq_bind, Option.bind_some, hearlier, Option.pure_def, hday]

end Criteria.Time
