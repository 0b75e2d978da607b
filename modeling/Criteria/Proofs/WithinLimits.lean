import Criteria.Proofs.Payload.Limits
import Criteria.Proofs.Trim

set_option autoImplicit false

/-! # Decoding under different limits

Limits decide whether a payload is decoded, and not what it is decoded to. What it would be decoded
to without limits is what it is decoded to under all limits that are wide enough
(`DecodesUnbounded`); limits let it through exactly if they admit its size and the number of these
criteria (`Limits.decode_ok_iff_unbounded`). The size is the number of bytes that the payload takes
without the blanks around it, so more blanks make no difference (`Limits.decode_between`). -/

namespace Criteria

open Payload

/-! ## The order of limits -/

/-- The second limits are as wide as the first in both respects. -/
instance : LE Limits where
  le limits limits' :=
    limits.maxCriteria ≤ limits'.maxCriteria ∧ limits.maxPayloadBytes ≤ limits'.maxPayloadBytes

theorem Limits.le_refl (limits : Limits) : limits ≤ limits := ⟨Nat.le_refl _, Nat.le_refl _⟩

variable {limits limits' : Limits} {payload : Option String} {cs : List Criterion}

/-- What is decoded under limits is decoded to the same under wider ones. -/
theorem Limits.decode_mono (hle : limits ≤ limits')
    (h : (limits.decode payload).outcome = .ok cs) :
    (limits'.decode payload).outcome = .ok cs := by
  obtain ⟨hcriteria, hbytes⟩ := hle
  rcases decode_ok_iff.1 h with hblank | ⟨hne, hsize, hparse, hcount⟩
  · exact decode_ok_iff.2 (Or.inl hblank)
  · exact decode_ok_iff.2
      (Or.inr ⟨hne, hsize.trans hbytes, hparse, hcount.trans hcriteria⟩)

/-! ## Payloads without limits -/

/-- There is no payload, or it has no character but blanks. -/
def IsBlankPayload (payload : Option String) : Prop :=
  ∀ text ∈ payload, ∀ c ∈ text.toList, Text.isBlank c = true

/-- The number of bytes of a payload without the blanks around it. -/
def payloadSize (payload : Option String) : Nat := (Text.trimmed (payload.getD "")).utf8ByteSize

/-- What a payload is decoded to without limits: under all that are wide enough. -/
def DecodesUnbounded (payload : Option String) (cs : List Criterion) : Prop :=
  ∃ wide : Limits, ∀ limits, wide ≤ limits → (limits.decode payload).outcome = .ok cs

theorem isBlankPayload_iff :
    IsBlankPayload payload ↔ Text.trim ((payload.getD "").toList) = [] := by
  rw [Text.trim_eq_nil_iff]
  cases payload <;> simp [IsBlankPayload]

theorem utf8ByteSize_ofList (cs : List Char) : (String.ofList cs).utf8ByteSize = byteLength cs := by
  induction cs with
  | nil => rfl
  | cons c cs ih =>
      rw [String.ofList_cons, String.utf8ByteSize_append, String.utf8ByteSize_singleton, ih]
      rfl

theorem payloadSize_eq (payload : Option String) :
    payloadSize payload = byteLength (Text.trim ((payload.getD "").toList)) :=
  utf8ByteSize_ofList _

/-- Without limits, decoding is parsing. -/
theorem decodesUnbounded_iff :
    DecodesUnbounded payload cs ↔
      IsBlankPayload payload ∧ cs = [] ∨
      ¬ IsBlankPayload payload ∧ parse (Text.trim ((payload.getD "").toList)) = .ok cs := by
  rw [isBlankPayload_iff]
  constructor
  · rintro ⟨wide, hwide⟩
    rcases Limits.decode_ok_iff.1 (hwide wide wide.le_refl) with hblank | ⟨hne, -, hparse, -⟩
    · exact Or.inl hblank
    · exact Or.inr ⟨hne, hparse⟩
  · rintro (hblank | ⟨hne, hparse⟩)
    · exact ⟨⟨0, 0⟩, fun limits _ => Limits.decode_ok_iff.2 (Or.inl hblank)⟩
    · refine ⟨⟨cs.length, byteLength (Text.trim ((payload.getD "").toList))⟩, ?_⟩
      intro limits hle
      exact Limits.decode_ok_iff.2 (Or.inr ⟨hne, hle.2, hparse, hle.1⟩)

namespace Limits

/-- Limits let a payload through that is blank, or that they admit by its size and by the number of
criteria that it has without limits. -/
theorem decode_ok_iff_unbounded :
    (limits.decode payload).outcome = .ok cs ↔
      IsBlankPayload payload ∧ cs = [] ∨
      payloadSize payload ≤ limits.maxPayloadBytes ∧ DecodesUnbounded payload cs ∧
        cs.length ≤ limits.maxCriteria := by
  rw [decode_ok_iff, payloadSize_eq, decodesUnbounded_iff, isBlankPayload_iff]
  constructor
  · rintro (hblank | ⟨hne, hsize, hparse, hcount⟩)
    · exact Or.inl hblank
    · exact Or.inr ⟨hsize, Or.inr ⟨hne, hparse⟩, hcount⟩
  · rintro (hblank | ⟨hsize, hblank | ⟨hne, hparse⟩, hcount⟩)
    · exact Or.inl hblank
    · exact Or.inl hblank
    · exact Or.inr ⟨hne, hsize, hparse, hcount⟩

/-- Blanks around a payload change neither its criteria nor its fault nor what is logged. -/
theorem decode_between (limits : Limits) {before after : String} (text : String)
    (hbefore : ∀ c ∈ before.toList, Text.isBlank c = true)
    (hafter : ∀ c ∈ after.toList, Text.isBlank c = true) :
    limits.decode (some (before ++ text ++ after)) = limits.decode (some text) := by
  have htrim : Text.trim (before ++ text ++ after).toList = Text.trim text.toList := by
    rw [String.toList_append, String.toList_append, List.append_assoc,
      Text.trim_between hbefore hafter]
  rw [decode, decode, Option.getD_some, Option.getD_some, htrim]

/-- **What limits decide.** A payload is decoded if and only if it is blank, and then to no
criteria, or its size is within the limit on bytes and the criteria that it has without limits are
within the limit on their number, and then to these; any failure is a malformed payload. So wider
limits decode whatever narrower ones do, to the same criteria, and blanks around a payload change
nothing. -/
theorem decode_within_limits (limits : Limits) :
    (∀ payload cs, (limits.decode payload).outcome = .ok cs ↔
      IsBlankPayload payload ∧ cs = [] ∨
      payloadSize payload ≤ limits.maxPayloadBytes ∧ DecodesUnbounded payload cs ∧
        cs.length ≤ limits.maxCriteria) ∧
    (∀ payload r, (limits.decode payload).outcome = .error r → r.code = .malformedFilter) ∧
    (∀ limits' payload cs, limits ≤ limits' → (limits.decode payload).outcome = .ok cs →
      (limits'.decode payload).outcome = .ok cs) ∧
    ∀ before text after : String, (∀ c ∈ before.toList, Text.isBlank c = true) →
      (∀ c ∈ after.toList, Text.isBlank c = true) →
        limits.decode (some (before ++ text ++ after)) = limits.decode (some text) := by
  refine ⟨fun payload cs => decode_ok_iff_unbounded, fun payload r => code_of_decode_error, ?_, ?_⟩
  · intro limits' payload cs hle h
    exact decode_mono hle h
  · intro before text after hbefore hafter
    exact limits.decode_between text hbefore hafter

/-- A payload of 13 characters in 14 bytes. -/
def accentPayload : String := "[[\"é\",\"=\",1]]"

/-- Bytes are counted and not characters, and none of the blanks around them. -/
theorem decode_within_limits_accent :
    (∀ limits : Limits, ⟨1, 14⟩ ≤ limits →
      (limits.decode (some accentPayload)).outcome = .ok [⟨"é", "=", .int 1⟩]) ∧
    (∀ cs, (Limits.decode ⟨1, 13⟩ (some accentPayload)).outcome ≠ .ok cs) ∧
    Limits.decode ⟨1, 14⟩ (some ("\t" ++ accentPayload ++ "\u3000 ")) =
      Limits.decode ⟨1, 14⟩ (some accentPayload) ∧
    (Limits.decode ⟨0, 0⟩ (some "\u2003\n")).outcome = .ok [] := by
  have hdecode : (Limits.decode ⟨1, 14⟩ (some accentPayload)).outcome =
      .ok [⟨"é", "=", .int 1⟩] := by
    decide +kernel
  have hsize : payloadSize (some accentPayload) = 14 := by decide +kernel
  have hbracket : Text.trim accentPayload.toList ≠ [] := by decide +kernel
  obtain ⟨-, -, hmono, hbetween⟩ := decode_within_limits ⟨1, 14⟩
  refine ⟨fun limits hle => hmono limits _ _ hle hdecode, ?_, ?_, ?_⟩
  · intro cs h
    rcases ((decode_within_limits ⟨1, 13⟩).1 _ cs).1 h with ⟨hblank, -⟩ | ⟨hbytes, -⟩
    · exact hbracket (isBlankPayload_iff.1 hblank)
    · rw [hsize] at hbytes
      exact absurd hbytes (by decide)
  · exact hbetween "\t" accentPayload "\u3000 " (List.all_eq_true.1 (by decide +kernel))
      (List.all_eq_true.1 (by decide +kernel))
  · refine ((decode_within_limits ⟨0, 0⟩).1 _ []).2 (Or.inl ⟨?_, rfl⟩)
    rw [isBlankPayload_iff]
    decide +kernel

end Limits

end Criteria
