import Criteria.Proofs.Payload.Writing

set_option autoImplicit false

/-! # Decoding what was written

Written criteria that fit the limits are decoded to themselves, whatever characters their texts
hold, as long as no constant is a double (`decode_writeCriteria`). -/

namespace Criteria

open Payload

/-- **Decoding undoes writing.** Criteria without doubles are decoded to the same criteria, in the
same order, exactly if their text is within the limits. -/
theorem decode_writeCriteria {limits : Limits} {cs : List Criterion}
    (h : ∀ c ∈ cs, ∀ x, c.value ≠ .float x) :
    (limits.decode (some (String.ofList (writeCriteria cs)))).outcome = .ok cs ↔
      byteLength (writeCriteria cs) ≤ limits.maxPayloadBytes ∧
        cs.length ≤ limits.maxCriteria := by
  refine Limits.decode_written ?_
  rw [List.forall₂_same]
  intro c hc
  exact Criterion.readsAs_self (h c hc)

/-- Texts that read like other constants or like parts of the payload, control characters and
characters beyond ASCII, the ends of the words, and a criterion that comes twice. -/
theorem decode_writeCriteria_likeConstants :
    let cs : List Criterion :=
      [⟨"a\"\\/\x00\t\x7f", "é\u2028😀", .text "null"⟩, ⟨"P", "=", .text "1"⟩,
        ⟨"P", "=", .int Int64.minValue⟩, ⟨"P", "<", .int Int64.maxValue⟩, ⟨"", "", .text "]"⟩,
        ⟨"P", "=", .null⟩, ⟨"P", "=", .bool true⟩, ⟨"P", "=", .text "true"⟩, ⟨"P", "=", .text "1"⟩]
    (Limits.decode {} (some (String.ofList (writeCriteria cs)))).outcome = .ok cs := by
  intro cs
  have hvalues : ∀ c ∈ cs, ∀ x, c.value ≠ .float x := by simp [cs]
  exact (decode_writeCriteria hvalues).2 (by decide +kernel)

end Criteria
