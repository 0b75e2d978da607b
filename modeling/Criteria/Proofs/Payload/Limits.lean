import Criteria.Endpoint
import Criteria.Proofs.Payload.Reading

set_option autoImplicit false

/-! # Payloads within limits

The limits are checked before a payload is read and after it; between them they take no part. So a
written payload within the limits is decoded to the criteria that it stands for, and refused if it
stands for none. A payload that is refused is malformed, whatever is wrong with it. -/

namespace Criteria

open Payload

/-- A payload as it is written, whose length and number of elements are within the limits. -/
structure Limits.Admits (limits : Limits) (payload : String) (d : Document) : Prop where
  /-- The payload is the text of the document, with blanks around it. -/
  text : Text.trim payload.toList = d.chars
  bytes : byteLength d.chars ≤ limits.maxPayloadBytes
  count : d.places.length ≤ limits.maxCriteria

/-- No blanks stand around the brackets of a payload. -/
theorem Payload.Document.trim_chars (d : Document) : Text.trim d.chars = d.chars := by
  have hopen : Text.isBlank '[' = false := by decide
  have hclose : Text.isBlank ']' = false := by decide
  rw [Document.chars, ← List.append_assoc]
  simp [Text.trim, Text.trimStart, hopen, hclose]

namespace Limits

/-- Decoding has four ends: no criteria, too many bytes, a fault of the payload, too many criteria. -/
theorem outcome_decode_eq (limits : Limits) (payload : Option String) :
    (limits.decode payload).outcome =
      let text := Text.trim ((payload.getD "").toList)
      if text.isEmpty then .ok []
      else if limits.maxPayloadBytes < byteLength text then
        .error (.malformedFilter ("payload is " ++ decode.number (byteLength text)
          ++ " bytes, limit is " ++ decode.number limits.maxPayloadBytes))
      else ((parse text).mapError fun fault =>
        (Report.malformedFilter fault.message).withSource (.payload fault)).bind fun cs =>
          if limits.maxCriteria < cs.length then
            .error (.malformedFilter (decode.number cs.length
              ++ " criteria supplied, limit is " ++ decode.number limits.maxCriteria))
          else .ok cs := by
  rw [decode]
  dsimp only
  split
  · rfl
  · split
    · rfl
    · rw [Traced.outcome_bind, Traced.outcome_ofExcept]
      congr 1
      funext cs
      split
      · rfl
      · rfl

/-- A payload is decoded exactly if it is blank, or if it is short enough, can be parsed and has few
enough criteria. -/
theorem decode_ok_iff {limits : Limits} {payload : Option String} {cs : List Criterion} :
    (limits.decode payload).outcome = .ok cs ↔
      Text.trim ((payload.getD "").toList) = [] ∧ cs = [] ∨
      Text.trim ((payload.getD "").toList) ≠ [] ∧
        byteLength (Text.trim ((payload.getD "").toList)) ≤ limits.maxPayloadBytes ∧
        parse (Text.trim ((payload.getD "").toList)) = .ok cs ∧
        cs.length ≤ limits.maxCriteria := by
  rw [outcome_decode_eq]
  generalize Text.trim ((payload.getD "").toList) = text
  dsimp only
  by_cases hempty : text = []
  · simp [hempty, eq_comm]
  · rw [if_neg (by simpa using hempty)]
    split
    · next hbytes => simp [hempty, Nat.not_le.2 hbytes]
    · next hbytes =>
        cases parse text with
        | error fault =>
            show Except.error _ = _ ↔ _
            simp [hempty]
        | ok cs' =>
            show (if limits.maxCriteria < cs'.length then _ else Except.ok cs') = _ ↔ _
            split
            · next hcount =>
                simp only [reduceCtorEq, hempty, false_and, false_or, false_iff, not_and,
                  Except.ok.injEq]
                rintro - - rfl
                exact Nat.not_le.2 hcount
            · next hcount =>
                simp only [hempty, false_and, false_or, ne_eq, not_false_eq_true, true_and,
                  Nat.not_lt.1 hbytes, Except.ok.injEq]
                constructor
                · rintro rfl
                  exact ⟨rfl, Nat.not_lt.1 hcount⟩
                · exact And.left

/-- Whatever is wrong with a payload, it is malformed. -/
theorem code_of_decode_error {limits : Limits} {payload : Option String} {r : Report}
    (h : (limits.decode payload).outcome = .error r) : r.code = .malformedFilter := by
  rw [outcome_decode_eq] at h
  dsimp only at h
  split at h
  · cases h
  · split at h
    · cases h
      rfl
    · cases hparse : parse (Text.trim ((payload.getD "").toList)) with
      | error fault =>
          rw [hparse] at h
          cases h
          rfl
      | ok cs =>
          rw [hparse] at h
          change (if limits.maxCriteria < cs.length then _ else Except.ok cs) = _ at h
          split at h
          · cases h
            rfl
          · cases h

variable {limits : Limits} {payload : String} {d : Document}

theorem outcome_decode_of_criteria (h : limits.Admits payload d) {cs : List Criterion}
    (hcs : d.criteria? = some cs) : (limits.decode (some payload)).outcome = .ok cs := by
  refine decode_ok_iff.2 (Or.inr ?_)
  rw [Option.getD_some, h.text, Document.length_of_criteria? hcs]
  exact ⟨by simp [Document.chars], h.bytes, d.parse_chars.1 cs hcs, h.count⟩

theorem outcome_decode_of_none (h : limits.Admits payload d) (hnone : d.criteria? = none) :
    ∃ r, (limits.decode (some payload)).outcome = .error r ∧ r.code = .malformedFilter := by
  obtain ⟨fault, hfault⟩ := d.parse_chars.2 hnone
  cases houtcome : (limits.decode (some payload)).outcome with
  | error r => exact ⟨r, rfl, code_of_decode_error houtcome⟩
  | ok cs =>
      rw [decode_ok_iff, Option.getD_some, h.text, hfault] at houtcome
      simp [Document.chars] at houtcome

/-- Within the limits, a payload is decoded to what it stands for. -/
theorem toOption_outcome_decode (h : limits.Admits payload d) :
    (limits.decode (some payload)).outcome.toOption = d.criteria? := by
  cases hcs : d.criteria? with
  | some cs =>
      rw [outcome_decode_of_criteria h hcs]
      rfl
  | none =>
      obtain ⟨r, hr, -⟩ := outcome_decode_of_none h hcs
      rw [hr]
      rfl

end Limits

end Criteria
