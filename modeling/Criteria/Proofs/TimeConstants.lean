import Criteria.Proofs.Coercion
import Criteria.Proofs.Time.Dated

set_option autoImplicit false

/-! # Dates and moments as constants

For a field of moments, a dated text stands for its instant, so two texts are equal and ordered as
their instants are; for a field of dates it stands for the date as written. A date that is missing
in the calendar is refused in all forms (`Literal.coerce_dated_text`). -/

namespace Criteria.Literal

open Criteria.Time

theorem coerce_timestamp_text {field : Field} (hkind : field.kind = .timestamp) (s : String) :
    coerce (.text s) field =
      match readTimestamp? (Text.trim s.toList) with
      | some t => .ok (.timestamp t)
      | none => .error (.mismatch .timestamp (.text s)) := by
  rw [coerce_of_ne_null (by simp), hkind, toKind?, toTimestamp?]
  cases readTimestamp? (Text.trim s.toList) <;> rfl

theorem coerce_date_text {field : Field} (hkind : field.kind = .date) (s : String) :
    coerce (.text s) field =
      match readDay? (Text.trim s.toList) with
      | some d => .ok (.date d)
      | none => .error (.mismatch .date (.text s)) := by
  rw [coerce_of_ne_null (by simp), hkind, toKind?, toDate?]
  cases readDay? (Text.trim s.toList) <;> rfl

theorem trim_dated_text (w : DatedText) : Text.trim w.text.toList = w.chars := by
  rw [DatedText.text, String.toList_ofList, w.trim_chars]

theorem coerce_timestamp_dated {field : Field} (hkind : field.kind = .timestamp) {w : DatedText}
    (h : w.Exists) : ∃ t, coerce (.text w.text) field = .ok (.timestamp t) ∧ ¬ t.IsLeap ∧
      t.nanoseconds = w.instant h := by
  obtain ⟨t, ht, hleap, hinstant⟩ := readTimestamp?_dated h
  exact ⟨t, by rw [coerce_timestamp_text hkind, trim_dated_text, ht], hleap, hinstant⟩

/-- **Dates and moments.** A text with a date of the calendar stands, for a field of moments, for
the instant of the time of day less the offset, or of the time of day in UTC if there is no offset,
or of midnight if there is no time of day; the moments of two texts are ordered as their instants
are. For a field of dates, a text with an offset, and a bare date, stand for the date as written. If
the date is missing in the calendar, both kinds of fields refuse the text, whatever stands behind
the date. -/
theorem coerce_dated_text {moment day : Field} (hmoment : moment.kind = .timestamp)
    (hday : day.kind = .date) :
    (∀ (w : DatedText) (h : w.Exists), ∃ t, coerce (.text w.text) moment = .ok (.timestamp t) ∧
      ¬ t.IsLeap ∧ t.nanoseconds = w.instant h) ∧
    (∀ (w w' : DatedText) (h : w.Exists) (h' : w'.Exists) (v v' : Value),
      coerce (.text w.text) moment = .ok v → coerce (.text w'.text) moment = .ok v' →
        v.compare v' = some (Ord.compare (w.instant h) (w'.instant h'))) ∧
    (∀ (w : DatedText) (h : w.Exists), ¬ w.tail.IsPlain →
      coerce (.text w.text) day = .ok (.date (w.date.date h.1))) ∧
    (∀ w : DatedText, ¬ w.date.Exists →
      coerce (.text w.text) moment = .error (.mismatch .timestamp (.text w.text)) ∧
      coerce (.text w.text) day = .error (.mismatch .date (.text w.text))) := by
  refine ⟨fun w h => coerce_timestamp_dated hmoment h, ?_, ?_, ?_⟩
  · intro w w' h h' v v' hv hv'
    obtain ⟨t, ht, hleap, hinstant⟩ := coerce_timestamp_dated hmoment h
    obtain ⟨t', ht', hleap', hinstant'⟩ := coerce_timestamp_dated hmoment h'
    obtain rfl := Except.ok.inj (hv.symm.trans ht)
    obtain rfl := Except.ok.inj (hv'.symm.trans ht')
    rw [Value.compare, Timestamp.compare_eq_compare_nanoseconds hleap hleap', hinstant, hinstant']
  · intro w h htail
    rw [coerce_date_text hday, trim_dated_text, readDay?_dated h htail]
  · intro w h
    refine ⟨?_, ?_⟩
    · rw [coerce_timestamp_text hmoment, trim_dated_text, DatedText.chars,
        readTimestamp?_of_not_exists h]
    · rw [coerce_date_text hday, trim_dated_text, DatedText.chars, readDay?_of_not_exists h]

/-- Half past midnight on 1 March 2024 and half a second, on a clock an hour ahead of UTC. -/
def halfPastMidnight : DatedText where
  date := {
    year := ⟨['2', '0', '2', '4'], Nat.le_refl _, Nat.le_refl _, List.all_eq_true.1 rfl⟩
    month := ⟨['0', '3'], Nat.le_refl _, Nat.le_refl _, List.all_eq_true.1 rfl⟩
    day := ⟨['0', '1'], Nat.le_refl _, Nat.le_refl _, List.all_eq_true.1 rfl⟩ }
  tail := .zoned 'T' (Or.inl rfl) {
    hour := ⟨['0', '0'], Nat.le_refl _, Nat.le_refl _, List.all_eq_true.1 rfl⟩
    minute := ⟨['3', '0'], Nat.le_refl _, Nat.le_refl _, List.all_eq_true.1 rfl⟩
    second := ⟨['0', '0'], Nat.le_refl _, Nat.le_refl _, List.all_eq_true.1 rfl⟩
    fraction := some ⟨['5'], List.cons_ne_nil _ _, List.all_eq_true.1 rfl⟩ }
    (.away '+' WrittenOffset.plus_sign
      ⟨['0', '1'], Nat.le_refl _, Nat.le_refl _, List.all_eq_true.1 rfl⟩
      ⟨['0', '0'], Nat.le_refl _, Nat.le_refl _, List.all_eq_true.1 rfl⟩)

/-- The moment is on the leap day before, the date is the one that is written. -/
theorem coerce_half_past_midnight :
    (∃ t, coerce (.text "2024-03-01T00:30:00.5+01:00") ⟨"SeenAt", .timestamp, false⟩ =
        .ok (.timestamp t) ∧ t.nanoseconds =
          ((⟨2024, 2, 29, by decide⟩ : Date).dayNumber * 86400 + 84600) * 1000000000 + 500000000) ∧
      coerce (.text "2024-03-01T00:30:00.5+01:00") ⟨"Due", .date, false⟩ =
        .ok (.date ⟨2024, 3, 1, by decide⟩) := by
  have hexists : halfPastMidnight.Exists :=
    ⟨show InCalendar 2024 3 1 by decide,
      show (0 < 24 ∧ 30 < 60 ∧ 0 < 60) ∧ 1 < 24 ∧ 0 < 60 by decide⟩
  obtain ⟨hmoment, -, hday, -⟩ := coerce_dated_text
    (show (⟨"SeenAt", .timestamp, false⟩ : Field).kind = .timestamp from rfl)
    (show (⟨"Due", .date, false⟩ : Field).kind = .date from rfl)
  refine ⟨?_, hday halfPastMidnight hexists id⟩
  obtain ⟨t, ht, -, hinstant⟩ := hmoment halfPastMidnight hexists
  exact ⟨t, ht, hinstant.trans (by cbv)⟩

end Criteria.Literal
