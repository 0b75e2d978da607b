import Criteria.Proofs.Payload.Objects
import Criteria.Proofs.Payload.Structure
import Criteria.Proofs.Trim

set_option autoImplicit false

/-! # What the elements of accepted payloads are

Every element of a payload that is decoded carries the criterion it is decoded to: it is an object
with the three parts, or a list that has them as its three items (`Element.Carries`). Any other
element makes the payload malformed, whatever stands next to it (`decode_elements`). -/

namespace Criteria

open Payload

namespace Payload

theorem Gap.isBlank (g : Gap) : ∀ c ∈ g.chars, Text.isBlank c = true := by
  intro c hc
  have hspace := g.blank c hc
  simp only [isSpace, Bool.or_eq_true, beq_iff_eq] at hspace
  rcases hspace with ((rfl | rfl) | rfl) | rfl <;> decide

/-- Blanks around a payload are dropped. -/
theorem Document.trim_between (d : Document) (g g' : Gap) :
    Text.trim (g.chars ++ (d.chars ++ g'.chars)) = d.chars := by
  rw [Text.trim_between g.isBlank g'.isBlank, d.trim_chars]

/-! ## Elements -/

/-- A list carries a criterion by the places of its items: two strings and a value without parts,
and no other item. -/
def Row.Carries (r : Row) (c : Criterion) : Prop :=
  ∃ property operator value,
    r.items.map Spaced.value =
      [.scalar (.text property), .scalar (.text operator), .scalar value] ∧
    property.text? = some c.property ∧ operator.text? = some c.operator ∧ value.Stands c.value

theorem Row.criterion?_eq_some_iff {r : Row} {c : Criterion} :
    r.criterion? = some c ↔ r.Carries c := by
  constructor
  · intro h
    rw [criterion?] at h
    split at h
    · next p o v hitems =>
        simp only [assemble?_eq_some_iff, Item.text?_eq_some_iff, Item.literal?_eq_some_iff] at h
        obtain ⟨⟨property, hp, hproperty⟩, ⟨operator, ho, hoperator⟩, s, hv, hs⟩ := h
        exact ⟨property, operator, s, by simp [hitems, hp, ho, hv], hproperty, hoperator, hs⟩
    · cases h
  · rintro ⟨property, operator, s, hitems, hproperty, hoperator, hs⟩
    obtain ⟨p, items, hr, hp, hitems⟩ := List.map_eq_cons_iff.1 hitems
    obtain ⟨o, items, rfl, ho, hitems⟩ := List.map_eq_cons_iff.1 hitems
    obtain ⟨v, items, rfl, hv, hitems⟩ := List.map_eq_cons_iff.1 hitems
    obtain rfl := List.map_eq_nil_iff.1 hitems
    rw [criterion?, hr]
    simp only [assemble?_eq_some_iff, Item.text?_eq_some_iff, Item.literal?_eq_some_iff]
    exact ⟨⟨property, hp, hproperty⟩, ⟨operator, ho, hoperator⟩, s, hv, hs⟩

/-- An element carries a criterion: as an object by the names of its members, whose keys stand for
texts, or as a list by the places of its items. -/
inductive Element.Carries : Element → Criterion → Prop where
  | object {o : Object} {c : Criterion} (hkeys : keysDenote o.entries = true) (h : o.Carries c) :
      Carries (.object o) c
  | list {r : Row} {c : Criterion} (h : r.Carries c) : Carries (.list r) c

theorem Element.criterion?_eq_some_iff {e : Element} {c : Criterion} :
    e.criterion? = some c ↔ e.Carries c := by
  constructor
  · intro h
    cases e with
    | object o =>
        have hkeys : keysDenote o.entries = true := by
          rw [criterion?, Object.criterion?] at h
          split at h
          · assumption
          · cases h
        exact .object hkeys ((Object.criterion?_eq_some_iff hkeys).1 h)
    | list r => exact .list (Row.criterion?_eq_some_iff.1 h)
    | scalar s => cases h
  · intro h
    cases h with
    | object hkeys h => exact (Object.criterion?_eq_some_iff hkeys).2 h
    | list h => exact Row.criterion?_eq_some_iff.2 h

theorem Document.criteria?_eq_some_iff_carries {d : Document} {cs : List Criterion} :
    d.criteria? = some cs ↔ List.Forall₂ Element.Carries (d.places.map Place.element) cs := by
  rw [criteria?_eq_some_iff, ← List.forall₂_eq_eq_eq, List.forall₂_map_left_iff,
    List.forall₂_map_right_iff, List.forall₂_map_left_iff]
  simp only [Element.criterion?_eq_some_iff]

end Payload

/-! ## Decoding -/

variable {limits : Limits} {payload : String} {cs : List Criterion}

/-- A payload that is decoded is blank, or it is parsed. -/
theorem Limits.parse_of_decode (h : (limits.decode (some payload)).outcome = .ok cs) :
    Text.trim payload.toList = [] ∧ cs = [] ∨ parse (Text.trim payload.toList) = .ok cs := by
  rcases decode_ok_iff.1 h with hblank | ⟨-, -, hparse, -⟩
  · exact Or.inl hblank
  · exact Or.inr hparse

/-- A written payload is decoded to nothing but the criteria that it stands for. -/
theorem Limits.criteria?_of_decode {d : Document} (htext : Text.trim payload.toList = d.chars)
    (h : (limits.decode (some payload)).outcome = .ok cs) : d.criteria? = some cs := by
  rcases parse_of_decode h with ⟨hempty, -⟩ | hparse
  · rw [htext] at hempty
    cases hempty
  · rw [htext] at hparse
    cases hcs : d.criteria? with
    | some cs' =>
        rw [d.parse_chars.1 cs' hcs] at hparse
        rw [Except.ok.inj hparse]
    | none =>
        obtain ⟨fault, hfault⟩ := d.parse_chars.2 hcs
        rw [hfault] at hparse
        cases hparse

/-- A payload that is decoded to criteria is a written one. -/
theorem Limits.exists_document_of_decode (hne : cs ≠ [])
    (h : (limits.decode (some payload)).outcome = .ok cs) :
    ∃ d : Document, Text.trim payload.toList = d.chars := by
  rcases parse_of_decode h with ⟨-, hcs⟩ | hparse
  · exact absurd hcs hne
  · have hread : readPayload (Text.trim payload.toList) = .ok cs := by
      rw [parse] at hparse
      cases hread : readPayload (Text.trim payload.toList) with
      | ok cs' =>
          rw [hread] at hparse
          cases hparse
          rfl
      | error stop =>
          rw [hread] at hparse
          cases hparse
    obtain ⟨g, g', d, hd⟩ := exists_document_of_readPayload hread
    exact ⟨d, by rw [← Text.trim_idempotent, hd, d.trim_between]⟩

/-- **What the elements of accepted payloads are.** A payload that is decoded to criteria is a list,
and each of its elements carries the criterion it is decoded to. A list with an element that carries
none is malformed, as is any other payload that is refused. -/
theorem decode_elements (limits : Limits) (payload : String) :
    (∀ cs, (limits.decode (some payload)).outcome = .ok cs → cs ≠ [] →
      ∃ d : Document, Text.trim payload.toList = d.chars ∧
        List.Forall₂ Element.Carries (d.places.map Place.element) cs) ∧
    (∀ d : Document, Text.trim payload.toList = d.chars →
      (∃ e ∈ d.places.map Place.element, ∀ c, ¬ e.Carries c) →
        ∃ r, (limits.decode (some payload)).outcome = .error r ∧ r.code = .malformedFilter) ∧
    ∀ r, (limits.decode (some payload)).outcome = .error r → r.code = .malformedFilter := by
  have hcode : ∀ r, (limits.decode (some payload)).outcome = .error r →
      r.code = .malformedFilter := fun r hr => Limits.code_of_decode_error hr
  refine ⟨?_, ?_, hcode⟩
  · intro cs hok hne
    obtain ⟨d, htext⟩ := Limits.exists_document_of_decode hne hok
    have hcriteria := Limits.criteria?_of_decode htext hok
    exact ⟨d, htext, Document.criteria?_eq_some_iff_carries.1 hcriteria⟩
  · rintro d htext ⟨e, he, hnone⟩
    cases houtcome : (limits.decode (some payload)).outcome with
    | error r => exact ⟨r, rfl, hcode r houtcome⟩
    | ok cs =>
        have hcarries := Document.criteria?_eq_some_iff_carries.1
          (Limits.criteria?_of_decode htext houtcome)
        obtain ⟨i, hi, rfl⟩ := List.getElem_of_mem he
        have hlength := hcarries.length_eq
        exact absurd (hcarries.get hi (hlength ▸ hi)) (hnone _)

/-- A criterion that is sent as a list of its parts. -/
def positionalPayload : String := " [[\"P\",\"=\",1]]"

theorem decode_positionalPayload :
    (Limits.decode {} (some positionalPayload)).outcome = .ok [⟨"P", "=", .int 1⟩] := by
  rfl

/-- A list of the three parts is decoded, and a list of other items is malformed. -/
theorem decode_elements_positional :
    (∃ d : Document, Text.trim positionalPayload.toList = d.chars ∧
      List.Forall₂ Element.Carries (d.places.map Place.element) [⟨"P", "=", .int 1⟩]) ∧
    ∃ r, (Limits.decode {} (some "[[null,[]]]")).outcome = .error r ∧
      r.code = .malformedFilter := by
  obtain ⟨hcarries, -⟩ := decode_elements {} positionalPayload
  refine ⟨hcarries _ decode_positionalPayload (by simp), ?_⟩
  let r : Row := ⟨.empty, [⟨.empty, .scalar .null, .empty⟩,
    ⟨.empty, .list _ (.noItems .empty), .empty⟩]⟩
  obtain ⟨-, hmalformed, -⟩ := decode_elements {} "[[null,[]]]"
  refine hmalformed ⟨.empty, [⟨.empty, .list r, .empty⟩]⟩ (by decide +kernel) ⟨.list r, by simp, ?_⟩
  intro c hc
  cases hc with
  | list h =>
      obtain ⟨property, operator, value, hitems, -⟩ := h
      cases hitems

/-- In front of the first of several objects stands a brace. -/
theorem Payload.Document.head?_of_objects {d : Document} {os : List Object}
    (h : d.places.map Place.element = os.map Element.object) :
    (skipSpace d.tail).head? = some ']' ∨ (skipSpace d.tail).head? = some '\x7b' := by
  rw [tail, skipSpace_gap]
  cases hplaces : d.places with
  | nil => exact Or.inl rfl
  | cons p ps =>
      right
      rw [hplaces, List.map_cons] at h
      cases os with
      | nil => cases h
      | cons o os =>
          obtain ⟨hp, -⟩ := List.cons.inj h
          simp only [List.map_cons, commaSeparated, Place.chars, List.append_assoc, skipSpace_gap]
          rw [p.element.skipSpace_chars, hp]
          rfl

/-- Not every payload that is decoded is a list of objects. -/
theorem decode_accepts_positional :
    ¬ ∀ (limits : Limits) (payload : String) (cs : List Criterion),
      (limits.decode (some payload)).outcome = .ok cs → cs ≠ [] →
        ∃ (d : Document) (os : List Object), Text.trim payload.toList = d.chars ∧
          d.places.map Place.element = os.map Element.object := by
  intro hall
  obtain ⟨d, os, htext, hobjects⟩ := hall {} _ _ decode_positionalPayload (by simp)
  have htail : "[\"P\",\"=\",1]]".toList = d.tail := by
    have htrim : Text.trim positionalPayload.toList = '[' :: "[\"P\",\"=\",1]]".toList := by
      decide +kernel
    exact (List.cons.inj (htrim.symm.trans htext)).2
  have hhead := Document.head?_of_objects hobjects
  rw [← htail] at hhead
  revert hhead
  decide +kernel

end Criteria
