import Criteria.Payload.Reader
import Criteria.Proofs.Payload.Passed

set_option autoImplicit false

/-! # Written payloads

A payload is a list of elements (`Document`). An element stands for a criterion if it is an object
that sends each part of a criterion once, under any of its names, or a list of the three parts in
order. What else an object holds, the order of its members and the blanks do not matter
(`Object.criterion?`).

A reader does not see an object at once but adds its members one by one. Both come to the same
(`Object.criterion?_eq_collect?`). -/

namespace Criteria.Payload

/-! ## Values -/

/-- A value: a scalar, or a list or an object, which no part of a criterion can be. -/
inductive Item where
  | scalar (s : Scalar)
  | list (cs : List Char) (h : Written .items cs)
  | object (cs : List Char) (h : Written .members cs)

namespace Item

/-- The text of a value. -/
def chars : Item → List Char
  | .scalar s => s.chars
  | .list cs _ => '[' :: cs
  | .object cs _ => '\x7b' :: cs

theorem written (i : Item) : Written .value i.chars := by
  cases i with
  | scalar s => exact .scalar s
  | list cs h => exact .list h
  | object cs h => exact .object h

/-- The text that a string stands for; no other value is one. -/
def text? : Item → Option String
  | .scalar (.text q) => q.text?
  | _ => none

/-- The literal that a value is. -/
def literal? : Item → Option Literal
  | .scalar .null => some .null
  | .scalar (.bool b) => some (.bool b)
  | .scalar (.number n) => n.numeric?.map literalOfNumber
  | .scalar (.text q) => q.text?.map .text
  | _ => none

end Item

/-! ## Objects -/

/-- A member of an object. -/
structure Entry where
  key : Key
  value : Item
  after : Gap

/-- The text of a member. -/
def Entry.chars (e : Entry) : List Char := e.key.chars ++ (e.value.chars ++ e.after.chars)

/-- The part of a criterion that a member is. -/
def Entry.member? (e : Entry) : Option Member := e.key.name.text?.bind Member.ofKey?

/-- Texts with commas between them, behind the first. -/
def commaSeparated : List (List Char) → List Char
  | [] => []
  | x :: xs => x ++ xs.flatMap (',' :: ·)

/-- An object as it is written. -/
structure Object where
  lead : Gap
  entries : List Entry

namespace Object

/-- The text of an object behind its brace. -/
def tail (o : Object) : List Char :=
  o.lead.chars ++ (commaSeparated (o.entries.map Entry.chars) ++ ['\x7d'])

end Object

/-- All values that members send for a part of a criterion. -/
def sent (m : Member) (es : List Entry) : List Item :=
  (es.filter fun e => e.member? = some m).map (·.value)

/-- The one item of a list. -/
def only? {α : Type} : List α → Option α
  | [a] => some a
  | _ => none

/-- A criterion from its parts, if they are all there. -/
def assemble? (property operator : Option String) (value : Option Literal) : Option Criterion := do
  return ⟨← property, ← operator, ← value⟩

/-- Every key of the members stands for a text. -/
def keysDenote (es : List Entry) : Bool := es.all fun e => e.key.name.text?.isSome

/-- The criterion that an object stands for. -/
def Object.criterion? (o : Object) : Option Criterion :=
  if keysDenote o.entries then
    assemble? ((only? (sent .property o.entries)).bind Item.text?)
      ((only? (sent .operator o.entries)).bind Item.text?)
      ((only? (sent .value o.entries)).bind Item.literal?)
  else none

/-! ## Elements -/

/-- A value in a list. -/
structure Spaced where
  before : Gap
  value : Item
  after : Gap

/-- The text of a value in a list. -/
def Spaced.chars (s : Spaced) : List Char := s.before.chars ++ (s.value.chars ++ s.after.chars)

/-- A list of values as it is written. -/
structure Row where
  lead : Gap
  items : List Spaced

namespace Row

/-- The text of a list behind its bracket. -/
def tail (r : Row) : List Char :=
  r.lead.chars ++ (commaSeparated (r.items.map Spaced.chars) ++ [']'])

/-- The criterion that a list stands for. -/
def criterion? (r : Row) : Option Criterion :=
  match r.items with
  | [p, o, v] => assemble? p.value.text? o.value.text? v.value.literal?
  | _ => none

end Row

/-- An element of a payload. -/
inductive Element where
  | object (o : Object)
  | list (r : Row)
  | scalar (s : Scalar)

namespace Element

/-- The text of an element. -/
def chars : Element → List Char
  | .object o => '\x7b' :: o.tail
  | .list r => '[' :: r.tail
  | .scalar s => s.chars

/-- The criterion that an element stands for. -/
def criterion? : Element → Option Criterion
  | .object o => o.criterion?
  | .list r => r.criterion?
  | .scalar _ => none

end Element

/-- An element sends a property, an operator and a value: under any names of the parts and among any
other members of an object, or as a list. -/
inductive Element.Sends : Element → String → String → Item → Prop where
  | object {o : Object} {p q v : Item} {property operator : String}
      (hkeys : keysDenote o.entries = true) (hproperty : sent .property o.entries = [p])
      (htext : p.text? = some property) (hoperator : sent .operator o.entries = [q])
      (htoken : q.text? = some operator) (hvalue : sent .value o.entries = [v]) :
      Sends (.object o) property operator v
  | list {r : Row} {p q v : Spaced} {property operator : String} (hitems : r.items = [p, q, v])
      (htext : p.value.text? = some property) (htoken : q.value.text? = some operator) :
      Sends (.list r) property operator v.value

theorem assemble?_some (property operator : String) (value : Option Literal) :
    assemble? (some property) (some operator) value =
      value.map fun l => ⟨property, operator, l⟩ := by
  cases value <;> rfl

theorem Element.Sends.criterion?_eq {e : Element} {property operator : String} {v : Item}
    (h : e.Sends property operator v) :
    e.criterion? = v.literal?.map fun l => ⟨property, operator, l⟩ := by
  cases h with
  | object hkeys hproperty htext hoperator htoken hvalue =>
      rw [Element.criterion?, Object.criterion?, if_pos hkeys, hproperty, hoperator, hvalue]
      simp only [only?, Option.bind_some, htext, htoken, assemble?_some]
  | list hitems htext htoken =>
      rw [Element.criterion?, Row.criterion?, hitems]
      simp only [htext, htoken, assemble?_some]

/-! ## Payloads -/

/-- An element in its place. -/
structure Place where
  before : Gap
  element : Element
  after : Gap

/-- The text of an element in its place. -/
def Place.chars (p : Place) : List Char := p.before.chars ++ (p.element.chars ++ p.after.chars)

/-- A payload as it is written. -/
structure Document where
  lead : Gap
  places : List Place

namespace Document

/-- The text of a payload. -/
def chars (d : Document) : List Char :=
  '[' :: (d.lead.chars ++ (commaSeparated (d.places.map Place.chars) ++ [']']))

/-- The criteria that a payload stands for, if all its elements stand for one. -/
def criteria? (d : Document) : Option (List Criterion) :=
  d.places.mapM fun p => p.element.criterion?

end Document

/-! ## Members one by one -/

/-- The parts with a member added, unless it repeats a part or has the wrong type. -/
def Parts.add? (parts : Parts) (i : Item) : Option Member → Option Parts
  | none => some parts
  | some m =>
      if parts.has m then none
      else match m with
        | .property => i.text?.map fun t => { parts with property := some t }
        | .operator => i.text?.map fun t => { parts with operator := some t }
        | .value => i.literal?.map fun l => { parts with value := some l }

/-- The parts with an entry added, whose key has to stand for a text. -/
def Entry.add? (parts : Parts) (e : Entry) : Option Parts :=
  e.key.name.text?.bind fun key => parts.add? e.value (Member.ofKey? key)

/-- The parts with entries added, as a criterion. -/
def Parts.collect? (parts : Parts) (es : List Entry) : Option Criterion :=
  (es.foldlM Entry.add? parts).bind fun parts => parts.criterion.toOption

@[simp] theorem assemble?_none_property (operator : Option String) (value : Option Literal) :
    assemble? none operator value = none := rfl

@[simp] theorem assemble?_none_operator (property : Option String) (value : Option Literal) :
    assemble? property none value = none := by
  cases property <;> rfl

@[simp] theorem assemble?_none_value (property operator : Option String) :
    assemble? property operator none = none := by
  cases property <;> cases operator <;> rfl

theorem Parts.toOption_criterion (parts : Parts) :
    parts.criterion.toOption = assemble? parts.property parts.operator parts.value := by
  obtain ⟨property, operator, value⟩ := parts
  cases property <;> cases operator <;> cases value <;> rfl

/-- What has been read of a part, or what the rest of the members sends for it; nothing, if the part
is sent twice. -/
def slot? {α : Type} (read : Option α) (meaning? : Item → Option α) : List Item → Option α
  | [] => read
  | [i] => if read.isSome then none else meaning? i
  | _ => none

theorem slot?_none {α : Type} (meaning? : Item → Option α) (is : List Item) :
    slot? none meaning? is = (only? is).bind meaning? := by
  match is with
  | [] => rfl
  | [i] => rfl
  | _ :: _ :: _ => rfl

theorem slot?_cons {α : Type} (read : Option α) (meaning? : Item → Option α) (i : Item)
    (is : List Item) :
    slot? read meaning? (i :: is) =
      if read.isSome then none else (meaning? i).bind fun a => slot? (some a) meaning? is := by
  cases is with
  | nil => cases read <;> cases h : meaning? i <;> simp [slot?, h]
  | cons j js =>
      have hnone : ∀ a, slot? (some a) meaning? (j :: js) = none := by
        intro a
        cases js <;> rfl
      simp only [hnone, Option.bind_fun_none, ite_self]
      rfl

theorem sent_cons (m : Member) (e : Entry) (es : List Entry) :
    sent m (e :: es) = if e.member? = some m then e.value :: sent m es else sent m es := by
  by_cases h : e.member? = some m <;> simp [sent, h]

theorem Parts.collect?_cons (parts : Parts) (e : Entry) (es : List Entry) :
    parts.collect? (e :: es) = (e.add? parts).bind (·.collect? es) := by
  unfold collect?
  rw [List.foldlM_cons]
  cases e.add? parts <;> rfl

/-- Members one by one come to what they send for each part. -/
theorem Parts.collect?_eq (parts : Parts) (es : List Entry) :
    parts.collect? es =
      if keysDenote es then
        assemble? (slot? parts.property Item.text? (sent .property es))
          (slot? parts.operator Item.text? (sent .operator es))
          (slot? parts.value Item.literal? (sent .value es))
      else none := by
  -- The first member fills its part, and what the others send for it has to be nothing.
  induction es generalizing parts with
  | nil => exact parts.toOption_criterion
  | cons e es ih =>
      rw [collect?_cons, Entry.add?]
      cases hkey : e.key.name.text? with
      | none => simp [keysDenote, hkey]
      | some key =>
          have hmember : e.member? = Member.ofKey? key := by simp [Entry.member?, hkey]
          have hkeys : keysDenote (e :: es) = keysDenote es := by simp [keysDenote, hkey]
          rw [hkeys, sent_cons, sent_cons, sent_cons, hmember, Option.bind_some]
          cases Member.ofKey? key with
          | none => simp [add?, ih]
          | some m =>
              cases m with
              | property =>
                  by_cases hread : parts.property.isSome = true
                  · simp [add?, has, slot?_cons, hread]
                  · cases htext : e.value.text? <;>
                      simp [add?, has, slot?_cons, hread, htext, ih]
              | operator =>
                  by_cases hread : parts.operator.isSome = true
                  · simp [add?, has, slot?_cons, hread]
                  · cases htext : e.value.text? <;>
                      simp [add?, has, slot?_cons, hread, htext, ih]
              | value =>
                  by_cases hread : parts.value.isSome = true
                  · simp [add?, has, slot?_cons, hread]
                  · cases hliteral : e.value.literal? <;>
                      simp [add?, has, slot?_cons, hread, hliteral, ih]

theorem Object.criterion?_eq_collect? (o : Object) :
    o.criterion? = ({} : Parts).collect? o.entries := by
  rw [Parts.collect?_eq, Object.criterion?]
  simp only [slot?_none]

/-! ## Elements one by one -/

theorem mapM_eq_some_iff {α β : Type} {f : α → Option β} {as : List α} {bs : List β} :
    as.mapM f = some bs ↔ as.map f = bs.map some := by
  induction as generalizing bs with
  | nil => cases bs <;> simp
  | cons a as ih =>
      rw [List.mapM_cons]
      cases bs with
      | nil => cases f a <;> cases as.mapM f <;> simp
      | cons b bs =>
          rw [List.map_cons, List.map_cons, List.cons.injEq, ← ih]
          cases f a <;> cases as.mapM f <;> simp

theorem exists_mapM_iff {α β : Type} {f : α → Option β} {as : List α} :
    (∃ bs, as.mapM f = some bs) ↔ ∀ a ∈ as, ∃ b, f a = some b := by
  constructor
  · rintro ⟨bs, hbs⟩ a ha
    have hmem := List.mem_map_of_mem (f := f) ha
    rw [mapM_eq_some_iff.1 hbs] at hmem
    obtain ⟨b, -, hb⟩ := List.mem_map.1 hmem
    exact ⟨b, hb.symm⟩
  · intro h
    induction as with
    | nil => exact ⟨[], rfl⟩
    | cons a as ih =>
        obtain ⟨b, hb⟩ := h a (by simp)
        obtain ⟨bs, hbs⟩ := ih fun a ha => h a (List.mem_cons_of_mem _ ha)
        exact ⟨b :: bs, by rw [List.mapM_cons, hb, hbs]; rfl⟩

namespace Document

/-- The criteria of a payload are those of its elements, in order. -/
theorem criteria?_eq_some_iff {d : Document} {cs : List Criterion} :
    d.criteria? = some cs ↔ d.places.map (fun p => p.element.criterion?) = cs.map some :=
  mapM_eq_some_iff

theorem length_of_criteria? {d : Document} {cs : List Criterion} (h : d.criteria? = some cs) :
    cs.length = d.places.length := by
  simpa using (congrArg List.length (criteria?_eq_some_iff.1 h)).symm

theorem getElem?_of_criteria? {d : Document} {cs : List Criterion} (h : d.criteria? = some cs)
    {i : Nat} {p : Place} {c : Criterion} (hp : d.places[i]? = some p)
    (hc : p.element.criterion? = some c) : cs[i]? = some c := by
  have hi := congrArg (·[i]?) (criteria?_eq_some_iff.1 h)
  simp only [List.getElem?_map, hp, Option.map_some, hc] at hi
  obtain ⟨c', hc', hsome⟩ := Option.map_eq_some_iff.1 hi.symm
  rw [hc', Option.some.inj hsome]

/-- One element stands for a criterion, and the others stand for some. -/
theorem exists_criteria? {d : Document} {i : Nat} {p : Place} {c : Criterion}
    (hp : d.places[i]? = some p) (hc : p.element.criterion? = some c)
    (hothers : ∀ j q, j ≠ i → d.places[j]? = some q → ∃ c, q.element.criterion? = some c) :
    ∃ cs, d.criteria? = some cs ∧ cs[i]? = some c := by
  have hall : ∀ q ∈ d.places, ∃ c, q.element.criterion? = some c := by
    intro q hq
    obtain ⟨j, hj⟩ := List.mem_iff_getElem?.1 hq
    by_cases hji : j = i
    · subst hji
      obtain rfl := Option.some.inj (hp.symm.trans hj)
      exact ⟨c, hc⟩
    · exact hothers j q hji hj
  obtain ⟨cs, hcs⟩ := exists_mapM_iff.2 hall
  exact ⟨cs, hcs, getElem?_of_criteria? hcs hp hc⟩

theorem criteria?_eq_none {d : Document} {p : Place} (hp : p ∈ d.places)
    (hnone : p.element.criterion? = none) : d.criteria? = none := by
  cases h : d.criteria? with
  | none => rfl
  | some cs =>
      have hmem : p.element.criterion? ∈ cs.map some := by
        rw [← criteria?_eq_some_iff.1 h]
        exact List.mem_map_of_mem hp
      rw [hnone] at hmem
      exact absurd hmem (by simp)

end Document

end Criteria.Payload
