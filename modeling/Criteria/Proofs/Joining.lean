import Criteria.Proofs.Elements
import Criteria.Proofs.Payload.Writing
import Criteria.Proofs.WithinLimits

set_option autoImplicit false

/-! # Payloads joined at a comma

The text between the brackets of a payload is its elements, whatever strings and blanks they hold
(`Document.inner`). So the elements of two payloads with a comma between them are those of one
document (`Document.append`), which stands for the criteria of the first and then those of the
second (`Document.criteria?_append`): where an element ends does not depend on what follows it. -/

namespace Criteria

open Payload

namespace Payload

theorem commaSeparated_append {xs ys : List (List Char)} (hxs : xs ≠ []) (hys : ys ≠ []) :
    commaSeparated (xs ++ ys) = commaSeparated xs ++ ',' :: commaSeparated ys := by
  obtain ⟨x, xs, rfl⟩ := List.exists_cons_of_ne_nil hxs
  obtain ⟨y, ys, rfl⟩ := List.exists_cons_of_ne_nil hys
  simp [commaSeparated]

namespace Document

variable {d d' : Document} {cs cs' : List Criterion}

/-- The text between the brackets of a payload. -/
def inner (d : Document) : List Char :=
  d.lead.chars ++ commaSeparated (d.places.map Place.chars)

theorem chars_eq (d : Document) : d.chars = '[' :: (d.inner ++ [']']) := by
  simp [chars, inner]

/-- The elements of a payload, with the blanks behind the bracket in front of the first. -/
def placesBehindLead (d : Document) : List Place :=
  match d.places with
  | [] => []
  | p :: ps => { p with before := d.lead.append p.before } :: ps

theorem commaSeparated_placesBehindLead (h : d.places ≠ []) :
    commaSeparated (d.placesBehindLead.map Place.chars) = d.inner := by
  obtain ⟨p, ps, hplaces⟩ := List.exists_cons_of_ne_nil h
  simp [placesBehindLead, inner, hplaces, commaSeparated, Place.chars, Gap.append]

theorem map_element_placesBehindLead (d : Document) :
    d.placesBehindLead.map Place.element = d.places.map Place.element := by
  unfold placesBehindLead
  cases d.places <;> rfl

/-- The elements of two payloads in one. -/
def append (d d' : Document) : Document := ⟨d.lead, d.places ++ d'.placesBehindLead⟩

/-- A comma stands between the elements of the first payload and those of the second. -/
theorem inner_append (h : d.places ≠ []) (h' : d'.places ≠ []) :
    (d.append d').inner = d.inner ++ ',' :: d'.inner := by
  have hne : d'.placesBehindLead ≠ [] := by
    obtain ⟨p, ps, hplaces⟩ := List.exists_cons_of_ne_nil h'
    simp [placesBehindLead, hplaces]
  rw [inner, append, List.map_append, commaSeparated_append (by simpa using h) (by simpa using hne),
    commaSeparated_placesBehindLead h', ← List.append_assoc]
  rfl

/-- Two payloads in one stand for the criteria of the first and then those of the second. -/
theorem criteria?_append (h : d.criteria? = some cs) (h' : d'.criteria? = some cs') :
    (d.append d').criteria? = some (cs ++ cs') := by
  have hfirst := criteria?_eq_some_iff.1 h
  have hsecond := criteria?_eq_some_iff.1 h'
  have helements := congrArg (List.map Element.criterion?) (map_element_placesBehindLead d')
  rw [List.map_map, List.map_map] at helements
  rw [criteria?_eq_some_iff, append, List.map_append, List.map_append, hfirst, ← hsecond]
  exact congrArg _ helements

end Document

end Payload

/-! ## Decoding -/

/-- Elements as the text of a payload. -/
def bracketed (elements : String) : String := "[" ++ elements ++ "]"

theorem trim_bracketed (elements : String) :
    Text.trim (bracketed elements).toList = '[' :: (elements.toList ++ [']']) := by
  have htext : (bracketed elements).toList = '[' :: (elements.toList ++ [']']) := by
    simp [bracketed]
  rw [htext]
  have hclose : ('[' :: (elements.toList ++ [']'])).getLast? = some ']' := by
    rw [← List.cons_append, List.getLast?_concat]
  refine Text.trim_eq_self ?_ ?_
  · simpa using (by decide : Text.isBlank '[' = false)
  · simpa [hclose] using (by decide : Text.isBlank ']' = false)

/-- Elements that are decoded in brackets are those of a document. -/
theorem exists_document_of_bracketed {limits : Limits} {elements : String} {cs : List Criterion}
    (h : (limits.decode (some (bracketed elements))).outcome = .ok cs) (hne : cs ≠ []) :
    ∃ d : Document, d.inner = elements.toList ∧ d.criteria? = some cs ∧ d.places ≠ [] := by
  obtain ⟨d, htext⟩ := Limits.exists_document_of_decode hne h
  have hcs := Limits.criteria?_of_decode htext h
  rw [trim_bracketed, d.chars_eq] at htext
  refine ⟨d, ?_, hcs, ?_⟩
  · exact (List.append_cancel_right (List.cons.inj htext).2).symm
  · intro hplaces
    have hlength := Document.length_of_criteria? hcs
    rw [hplaces] at hlength
    exact hne (List.length_eq_zero_iff.1 hlength)

/-- **Payloads joined at a comma.** If the elements of two payloads are decoded to criteria, then
all of them in one payload are decoded to the criteria of the first and then those of the second,
exactly if the payload has no more bytes and the criteria are no more than the limits allow. A
payload of all of them is never decoded to anything else, and malformed if it exceeds the limits. -/
theorem decode_bracketed_join {limits₁ limits₂ : Limits} {x y : String} {xs ys : List Criterion}
    (hx : (limits₁.decode (some (bracketed x))).outcome = .ok xs) (hxs : xs ≠ [])
    (hy : (limits₂.decode (some (bracketed y))).outcome = .ok ys) (hys : ys ≠ [])
    (limits : Limits) :
    ((limits.decode (some (bracketed (x ++ "," ++ y)))).outcome = .ok (xs ++ ys) ↔
      (bracketed (x ++ "," ++ y)).utf8ByteSize ≤ limits.maxPayloadBytes ∧
        xs.length + ys.length ≤ limits.maxCriteria) ∧
    (∀ cs, (limits.decode (some (bracketed (x ++ "," ++ y)))).outcome = .ok cs → cs = xs ++ ys) ∧
    ∀ r, (limits.decode (some (bracketed (x ++ "," ++ y)))).outcome = .error r →
      r.code = .malformedFilter := by
  obtain ⟨d, hinner, hcs, hplaces⟩ := exists_document_of_bracketed hx hxs
  obtain ⟨d', hinner', hcs', hplaces'⟩ := exists_document_of_bracketed hy hys
  have htext : (bracketed (x ++ "," ++ y)).toList = (d.append d').chars := by
    rw [Document.chars_eq, Document.inner_append hplaces hplaces', hinner, hinner']
    simp [bracketed]
  have htrim : Text.trim (bracketed (x ++ "," ++ y)).toList = (d.append d').chars := by
    rw [htext, Document.trim_chars]
  have hcriteria := Document.criteria?_append hcs hcs'
  have hsize : (bracketed (x ++ "," ++ y)).utf8ByteSize = byteLength (d.append d').chars := by
    rw [← htext, ← utf8ByteSize_ofList, String.ofList_toList]
  refine ⟨?_, ?_, fun r => Limits.code_of_decode_error⟩
  · rw [Limits.outcome_decode_eq_ok_iff htrim hcriteria, hsize, List.length_append]
  · intro cs h
    have hread := Limits.criteria?_of_decode htrim h
    exact Option.some.inj (hread.symm.trans hcriteria)

/-- An object with brackets and a comma in a string, an escape and a member that is dropped. -/
def bracketsElement : String :=
  " \x7b\"Property\":\"a],[\",\"Operator\":\"\\u003d\",\"Z\":[\x7b\"y\":[1,\"]\"]\x7d]"
    ++ ",\"Value\":\"\\\"]\"\x7d"

/-- A list of the parts and an object, with blanks around the comma between them. -/
def twoElements : String :=
  "[\"P\",\">=\",1] , \x7b\"Value\":null,\"Operator\":\"!=\",\"Property\":\"Q\"\x7d "

/-- Elements of both kinds are joined if three criteria are allowed, and not if only two are. -/
theorem decode_bracketed_join_brackets :
    (Limits.decode ⟨3, 200⟩ (some (bracketed (bracketsElement ++ "," ++ twoElements)))).outcome =
      .ok [⟨"a],[", "=", .text "\"]"⟩, ⟨"P", ">=", .int 1⟩, ⟨"Q", "!=", .null⟩] ∧
    ∀ cs, (Limits.decode ⟨2, 200⟩
      (some (bracketed (bracketsElement ++ "," ++ twoElements)))).outcome ≠ .ok cs := by
  have hfirst : (Limits.decode ⟨1, 100⟩ (some (bracketed bracketsElement))).outcome =
      .ok [⟨"a],[", "=", .text "\"]"⟩] := by
    decide +kernel
  have hsecond : (Limits.decode ⟨2, 100⟩ (some (bracketed twoElements))).outcome =
      .ok [⟨"P", ">=", .int 1⟩, ⟨"Q", "!=", .null⟩] := by
    decide +kernel
  have hjoin := decode_bracketed_join hfirst (by simp) hsecond (by simp)
  constructor
  · exact (hjoin ⟨3, 200⟩).1.2 ⟨by decide +kernel, by decide⟩
  · intro cs h
    obtain ⟨hiff, honly, -⟩ := hjoin ⟨2, 200⟩
    rw [honly cs h, hiff] at h
    exact absurd h.2 (by decide)

end Criteria
