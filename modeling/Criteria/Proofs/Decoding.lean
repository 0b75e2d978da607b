import Criteria.Proofs.IntegerConstant
import Criteria.Proofs.Payload.Limits
import Criteria.Proofs.Payload.Objects

set_option autoImplicit false

/-! # Decoding objects

A payload that is a list of objects is decoded if every object has what a criterion needs, and then
to the criteria that the objects carry, one for each and in order; it is malformed otherwise. Two
payloads whose objects send the same are decoded to the same (`decode_objects`).

The numbers have to be in the range of the reader. It reaches to `rangeLimit`, and beyond that not
always to the largest double (`decode_refuses_nearLargest`). -/

namespace Criteria

open Number Payload

namespace Payload

/-- A payload is a list of objects, with nothing wrong about a string or a number in them. -/
structure Document.Holds (d : Document) (os : List Object) (ranges : Numeral → Prop) : Prop where
  elements : d.places.map Place.element = os.map Element.object
  denote : ∀ o ∈ os, o.Denotes ranges

namespace Document.Holds

variable {d d' : Document} {os os' : List Object} {ranges : Numeral → Prop}

theorem criteria?_eq (h : d.Holds os ranges) : d.criteria? = os.mapM Object.criterion? := by
  have helements : d.criteria? = (d.places.map Place.element).mapM Element.criterion? := by
    rw [List.mapM_map]
    rfl
  rw [helements, h.elements, List.mapM_map]
  rfl

/-- The criteria of a list of objects are those that the objects carry. -/
theorem criteria?_eq_some_iff (h : d.Holds os ranges) {cs : List Criterion} :
    d.criteria? = some cs ↔ List.Forall₂ Object.Carries os cs := by
  rw [h.criteria?_eq, mapM_eq_some_iff, ← List.forall₂_eq_eq_eq, List.forall₂_map_left_iff,
    List.forall₂_map_right_iff]
  constructor
  · intro hread
    exact ((List.forall₂_and_left _ _).2 ⟨h.denote, hread⟩).imp fun o c hc =>
      (Object.criterion?_eq_some_iff hc.1.keys).1 hc.2
  · intro hcarries
    exact ((List.forall₂_and_left _ _).2 ⟨h.denote, hcarries⟩).imp fun o c hc =>
      (Object.criterion?_eq_some_iff hc.1.keys).2 hc.2

theorem exists_criteria?_iff (h : d.Holds os Numeral.InRange) :
    (∃ cs, d.criteria? = some cs) ↔ ∀ o ∈ os, o.Complete := by
  rw [h.criteria?_eq, exists_mapM_iff]
  refine forall₂_congr fun o ho => ?_
  rw [← Object.exists_carries_iff (h.denote o ho)]
  simp only [Object.criterion?_eq_some_iff (h.denote o ho).keys]

theorem criteria?_congr (h : d.Holds os ranges) (h' : d'.Holds os' ranges)
    (hsame : List.Forall₂ Object.SendsSame os os') : d.criteria? = d'.criteria? := by
  rw [h.criteria?_eq, h'.criteria?_eq]
  have hdenote := h.denote
  have hdenote' := h'.denote
  clear h h'
  induction hsame with
  | nil => rfl
  | @cons o o' os os' hsame _ ih =>
      rw [List.forall_mem_cons] at hdenote hdenote'
      rw [List.mapM_cons, List.mapM_cons, hsame.criterion?_eq hdenote.1.keys hdenote'.1.keys,
        ih hdenote.2 hdenote'.2]

end Document.Holds

end Payload

theorem toOption_eq_some_iff {ε α : Type} {x : Except ε α} {a : α} :
    x.toOption = some a ↔ x = .ok a := by
  cases x <;> simp [Except.toOption]

variable {limits : Limits} {payload : String} {d : Document} {os : List Object}

/-- **What a list of objects is decoded to.** Within the limits and the range of numbers, decoding
succeeds exactly if each object sends every part of a criterion once and in its type, and its result
is the list of the criteria that the objects carry. Any failure is a malformed payload. The result
does not change with the order of members, the names of the parts, blanks, other members or the
limits. No number below `rangeLimit` is out of range. -/
theorem decode_objects (hpayload : limits.Admits payload d) (h : d.Holds os Numeral.InRange) :
    ((∃ cs, (limits.decode (some payload)).outcome = .ok cs) ↔ ∀ o ∈ os, o.Complete) ∧
    (∀ cs, (limits.decode (some payload)).outcome = .ok cs ↔
      List.Forall₂ Object.Carries os cs) ∧
    (∀ r, (limits.decode (some payload)).outcome = .error r → r.code = .malformedFilter) ∧
    (∀ (limits' : Limits) (payload' : String) (d' : Document) (os' : List Object),
      limits'.Admits payload' d' → d'.Holds os' Numeral.InRange →
      List.Forall₂ Object.SendsSame os os' →
        (limits'.decode (some payload')).outcome.toOption =
          (limits.decode (some payload)).outcome.toOption) ∧
    ∀ n : Numeral, n.size < rangeLimit → Power.exponent n.power < 2147483648 → n.InRange := by
  have hok : ∀ cs, (limits.decode (some payload)).outcome = .ok cs ↔ d.criteria? = some cs := by
    intro cs
    rw [← toOption_eq_some_iff, Limits.toOption_outcome_decode hpayload]
  refine ⟨?_, ?_, fun r hr => Limits.code_of_decode_error hr, ?_,
    fun n => Numeral.inRange_of_size_lt⟩
  · simp only [hok]
    exact h.exists_criteria?_iff
  · intro cs
    rw [hok, h.criteria?_eq_some_iff]
  · intro limits' payload' d' os' hpayload' h' hsame
    rw [Limits.toOption_outcome_decode hpayload, Limits.toOption_outcome_decode hpayload',
      h.criteria?_congr h' hsame]

/-- A payload of one object. -/
def oneObject (o : Object) : Document := ⟨.empty, [⟨.empty, .object o, .empty⟩]⟩

theorem oneObject_holds {ranges : Numeral → Prop} {o : Object}
    (hkeys : keysDenote o.entries = true) (h : ∀ i ∈ o.entries.map Entry.value, i.Denotes ranges) :
    (oneObject o).Holds [o] ranges where
  elements := rfl
  denote := by
    intro o' ho'
    obtain rfl := List.mem_singleton.1 ho'
    exact ⟨hkeys, fun e he _ => h e.value (List.mem_map_of_mem he)⟩

/-- The criterion on ranges that start at a number or below it. -/
def lowAtMost (n : Numeral) : Object where
  lead := .empty
  entries :=
    [member "Property" (.scalar (.text (plainText "Low"))),
      member "Operator" (.scalar (.text (plainText "<="))),
      member "Value" (.scalar (.number n))]

/-- The criterion on ranges that start at a number or below it, as it is sent. -/
def lowAtMostPayload (n : Numeral) : String := String.ofList (oneObject (lowAtMost n)).chars

theorem trim_lowAtMostPayload (n : Numeral) :
    Text.trim (lowAtMostPayload n).toList = (oneObject (lowAtMost n)).chars := by
  rw [lowAtMostPayload, String.toList_ofList, Document.trim_chars]

theorem lowAtMost_holds {ranges : Numeral → Prop} {n : Numeral} (hn : ranges n) :
    (oneObject (lowAtMost n)).Holds [lowAtMost n] ranges := by
  refine oneObject_holds rfl ?_
  simp only [lowAtMost, member, List.map_cons, List.map_nil, List.forall_mem_cons]
  exact ⟨⟨_, rfl⟩, ⟨_, rfl⟩, hn, by simp⟩

theorem lowAtMost_sends (n : Numeral) :
    (lowAtMost n).Sends (plainText "Low") (plainText "<=") (.number n) :=
  ⟨rfl, rfl, rfl⟩

/-- The negative zero. -/
def negativeZero : Numeral where
  negative := true
  whole := ⟨['0'], by decide, List.all_eq_true.1 rfl⟩
  noLeadingZero := Or.inl rfl
  fraction := none
  power := none

example : lowAtMostPayload negativeZero =
    "[\x7b\"Property\": \"Low\",\"Operator\": \"<=\",\"Value\": -0\x7d]" := by
  decide +kernel

/-- The criterion on ranges up to zero with other names, in another order and with another member. -/
def lowAtMostZero : Object where
  lead := ⟨['\n'], List.all_eq_true.1 rfl⟩
  entries :=
    [member "value" (.scalar (.number negativeZero)),
      member "note" (.list _ (.items .empty .empty (.object (.noMembers .empty)) .endItems)),
      member "propertyName" (.scalar (.text (plainText "Low"))),
      member "operator" (.scalar (.text (plainText "<=")))]

/-- The criterion on ranges up to zero as it is sent with other names. -/
def lowAtMostZeroPayload : String :=
  "[\x7b\n\"value\": -0,\"note\": [\x7b\x7d],"
    ++ "\"propertyName\": \"Low\",\"operator\": \"<=\"\x7d]\n"

theorem decode_objects_lowAtMostZero :
    (Limits.decode {} (some (lowAtMostPayload negativeZero))).outcome =
        .ok [⟨"Low", "<=", .float (.zero true)⟩] ∧
      (Limits.decode {} (some lowAtMostZeroPayload)).outcome.toOption =
        (Limits.decode {} (some (lowAtMostPayload negativeZero))).outcome.toOption := by
  have hpayload : Limits.Admits {} (lowAtMostPayload negativeZero)
      (oneObject (lowAtMost negativeZero)) :=
    ⟨trim_lowAtMostPayload negativeZero, by decide +kernel, by decide⟩
  have hother : Limits.Admits {} lowAtMostZeroPayload (oneObject lowAtMostZero) :=
    ⟨by decide +kernel, by decide +kernel, by decide⟩
  have hzero : negativeZero.InRange := ⟨.float (.zero true), by decide +kernel⟩
  have hholds : (oneObject lowAtMostZero).Holds [lowAtMostZero] Numeral.InRange := by
    refine oneObject_holds rfl ?_
    simp only [lowAtMostZero, member, List.map_cons, List.map_nil, List.forall_mem_cons]
    exact ⟨hzero, trivial, ⟨_, rfl⟩, ⟨_, rfl⟩, by simp⟩
  have hsame : (lowAtMost negativeZero).SendsSame lowAtMostZero := by
    unfold Object.SendsSame
    decide +kernel
  have hcarries : (lowAtMost negativeZero).Carries ⟨"Low", "<=", .float (.zero true)⟩ :=
    ⟨_, _, _, lowAtMost_sends negativeZero, rfl, rfl,
      .double (fun h => h.notNegativeZero ⟨rfl, rfl⟩) (by decide +kernel)⟩
  obtain ⟨-, hok, -, hagree, -⟩ := decode_objects hpayload (lowAtMost_holds hzero)
  exact ⟨(hok _).2 (.cons hcarries .nil), hagree {} _ _ _ hother hholds (.cons hsame .nil)⟩

/-! ## Beyond the range -/

/-- The number `17976931348623156225e289`, which is less than the largest double. -/
def nearLargest : Numeral where
  negative := false
  whole := ⟨"17976931348623156225".toList, by decide, List.all_eq_true.1 rfl⟩
  noLeadingZero := Or.inr (by decide)
  fraction := none
  power := some ⟨'e', Or.inl rfl, [], Or.inl rfl,
    ⟨"289".toList, by decide, List.all_eq_true.1 rfl⟩⟩

/-- The range of the reader is not the one of doubles: a number near the largest double is refused,
though the object that holds it has all parts of a criterion. -/
theorem decode_refuses_nearLargest :
    ¬ ∀ (limits : Limits) (payload : String) (d : Document) (os : List Object),
      limits.Admits payload d → d.Holds os (fun n => n.size ≤ largestDouble) →
        ((∃ cs, (limits.decode (some payload)).outcome = .ok cs) ↔ ∀ o ∈ os, o.Complete) := by
  intro hall
  have hpayload : Limits.Admits {} (lowAtMostPayload nearLargest)
      (oneObject (lowAtMost nearLargest)) :=
    ⟨trim_lowAtMostPayload nearLargest, by decide +kernel, by decide⟩
  have hsize : nearLargest.size ≤ largestDouble := by
    have hdigits : digitsValue (nearLargest.whole.chars ++ nearLargest.decimals) * 10 ^ 289 <
        largestDouble * 10 ^ 0 := by decide +kernel
    exact le_of_lt ((nearLargest.size_lt_iff (by decide)).2 hdigits)
  have hcomplete : ∀ o ∈ [lowAtMost nearLargest], o.Complete := by
    intro o ho
    obtain rfl := List.mem_singleton.1 ho
    exact ⟨_, _, _, lowAtMost_sends nearLargest⟩
  obtain ⟨cs, hcs⟩ := (hall {} _ _ _ hpayload (lowAtMost_holds hsize)).2 hcomplete
  -- the number stands for nothing, so the element does not either
  have hnumber : nearLargest.numeric? = none := by decide +kernel
  have hsends : Element.Sends (.object (lowAtMost nearLargest)) "Low" "<="
      (.scalar (.number nearLargest)) :=
    have h := lowAtMost_sends nearLargest
    .object rfl h.property rfl h.operator rfl h.value
  have hnone : (Element.object (lowAtMost nearLargest)).criterion? = none := by
    rw [hsends.criterion?_eq, Item.literal?, hnumber]
    rfl
  obtain ⟨r, hr, -⟩ := Limits.outcome_decode_of_none hpayload
    (Document.criteria?_eq_none (List.mem_singleton.2 rfl) hnone)
  rw [hr] at hcs
  cases hcs

end Criteria
