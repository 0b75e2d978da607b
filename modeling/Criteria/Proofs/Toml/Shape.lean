import Criteria.Proofs.Toml.Distinct

set_option autoImplicit false

/-! # Shapes of documents

A shape says what may stand at each path of a document: nothing, a natural number, a truth value, or
a table, with given keys or with any. An item conforms to a shape if whatever stands in it, at
whatever path, is of the kind that the shape has there (`Conforms`); a key that the shape does not
have is a path where nothing may stand. Paths lead through tables alone. The step from an item to
what stands at its keys (`conforms_iff`) gives one rule for each kind of shape. -/

namespace Criteria.Toml

/-- What may stand at a place of a document. -/
inductive Shape where
  | natural
  | truth
  /-- A table with no keys but these. -/
  | group (members : List (String × Shape))
  /-- A table with any keys, of which each has an item of one shape. -/
  | named (each : Shape)

namespace Shape

/-- What may stand at a key. -/
def member? : Shape → String → Option Shape
  | .group members, key => members.lookup key
  | .named each, _ => some each
  | _, _ => none

/-- What may stand at a path. -/
def at? : Shape → List String → Option Shape
  | shape, [] => some shape
  | shape, key :: path => (shape.member? key).bind fun part => part.at? path

/-- The shape is one of tables. -/
def isTable : Shape → Bool
  | .group _ | .named _ => true
  | _ => false

end Shape

namespace Item

/-- What stands at a key, if the item is a table. -/
def member? : Item → String → Option Item
  | .table _ entries, key => Entries.get? entries key
  | _, _ => none

/-- What stands at a path. -/
def at? : Item → List String → Option Item
  | item, [] => some item
  | item, key :: path => (item.member? key).bind fun sub => sub.at? path

/-- The item is a table. -/
def IsTable (item : Item) : Prop := ∃ kind entries, item = .table kind entries

end Item

/-- The item is of the kind that belongs to the shape; what stands in a table does not matter. -/
def Shape.Admits : Shape → Item → Prop
  | .natural, item => ∃ i : Int64, item = .integer i ∧ 0 ≤ i.toInt
  | .truth, item => ∃ b, item = .bool b
  | .group _, item => item.IsTable
  | .named _, item => item.IsTable

/-- Whatever stands in the item belongs there. -/
def Conforms (shape : Shape) (item : Item) : Prop :=
  ∀ path sub, item.at? path = some sub → ∃ part, shape.at? path = some part ∧ part.Admits sub

/-- Where a table belongs there is a table, if there is anything. -/
def Tabular (shape : Shape) (item : Item) : Prop :=
  ∀ path sub part, item.at? path = some sub → shape.at? path = some part →
    part.isTable = true → sub.IsTable

variable {shape : Shape} {item : Item}

@[simp] theorem Item.at?_key (kind : TableKind) (entries : Entries) (key : String) :
    (Item.table kind entries).at? [key] = entries.get? key := Option.bind_fun_some _

theorem Item.at?_cons (item : Item) (key : String) (path : List String) :
    item.at? (key :: path) = (item.at? [key]).bind fun sub => sub.at? path := by
  simp [Item.at?]

/-! ## From an item to what stands at its keys -/

theorem conforms_iff : Conforms shape item ↔ shape.Admits item ∧
    ∀ key sub, item.member? key = some sub →
      ∃ part, shape.member? key = some part ∧ Conforms part sub := by
  constructor
  · intro h
    refine ⟨?_, ?_⟩
    · obtain ⟨part, hpart, hadmits⟩ := h [] item rfl
      obtain rfl := Option.some.inj hpart
      exact hadmits
    · intro key sub hsub
      have hpath : ∀ path below, sub.at? path = some below →
          ∃ part, (shape.member? key).bind (fun part => part.at? path) = some part ∧
            part.Admits below := by
        intro path below hbelow
        refine h (key :: path) below ?_
        rw [Item.at?, hsub, Option.bind_some, hbelow]
      cases hkey : shape.member? key with
      | none =>
          obtain ⟨part, hpart, -⟩ := hpath [] sub rfl
          rw [hkey] at hpart
          cases hpart
      | some part =>
          rw [hkey] at hpath
          exact ⟨part, rfl, hpath⟩
  · rintro ⟨hadmits, hmembers⟩ path sub hsub
    cases path with
    | nil =>
        obtain rfl := Option.some.inj hsub
        exact ⟨shape, rfl, hadmits⟩
    | cons key path =>
        obtain ⟨next, hnext, hsub⟩ := Option.bind_eq_some_iff.1 hsub
        obtain ⟨part, hpart, hconforms⟩ := hmembers key next hnext
        rw [Shape.at?, hpart]
        exact hconforms path sub hsub

/-- Nothing stands where nothing belongs. -/
theorem Conforms.at?_ne_none {path : List String} {sub : Item} (h : Conforms shape item)
    (hsub : item.at? path = some sub) : shape.at? path ≠ none := by
  obtain ⟨part, hpart, -⟩ := h path sub hsub
  simp [hpart]

/-- What stands at a path conforms to what belongs there. -/
theorem Conforms.at? {path : List String} {sub : Item} {part : Shape} (h : Conforms shape item)
    (hsub : item.at? path = some sub) (hpart : shape.at? path = some part) :
    Conforms part sub := by
  induction path generalizing shape item with
  | nil =>
      obtain rfl := Option.some.inj hsub
      obtain rfl := Option.some.inj hpart
      exact h
  | cons key path ih =>
      obtain ⟨next, hnext, hsub⟩ := Option.bind_eq_some_iff.1 hsub
      obtain ⟨below, hbelow, hpart⟩ := Option.bind_eq_some_iff.1 hpart
      obtain ⟨below', hbelow', hconforms⟩ := (conforms_iff.1 h).2 key next hnext
      obtain rfl := Option.some.inj (hbelow.symm.trans hbelow')
      exact ih hconforms hsub hpart

theorem tabular_iff : Tabular shape item ↔ (shape.isTable = true → item.IsTable) ∧
    ∀ key sub part, item.member? key = some sub → shape.member? key = some part →
      Tabular part sub := by
  constructor
  · intro h
    refine ⟨h [] item shape rfl rfl, ?_⟩
    intro key sub part hsub hpart path below inner hbelow hinner
    refine h (key :: path) below inner ?_ ?_
    · rw [Item.at?, hsub, Option.bind_some, hbelow]
    · rw [Shape.at?, hpart, Option.bind_some, hinner]
  · rintro ⟨htable, hmembers⟩ path sub part hsub hpart
    cases path with
    | nil =>
        obtain rfl := Option.some.inj hsub
        obtain rfl := Option.some.inj hpart
        exact htable
    | cons key path =>
        obtain ⟨next, hnext, hsub⟩ := Option.bind_eq_some_iff.1 hsub
        obtain ⟨below, hbelow, hpart⟩ := Option.bind_eq_some_iff.1 hpart
        exact hmembers key next below hnext hbelow path sub part hsub hpart

theorem Tabular.isTable (h : Tabular shape item) (hshape : shape.isTable = true) : item.IsTable :=
  (tabular_iff.1 h).1 hshape

theorem Tabular.member {key : String} {sub : Item} {part : Shape} (h : Tabular shape item)
    (hsub : item.member? key = some sub) (hpart : shape.member? key = some part) :
    Tabular part sub :=
  (tabular_iff.1 h).2 key sub part hsub hpart

/-! ## Kinds of shapes -/

theorem conforms_natural_iff :
    Conforms .natural item ↔ ∃ i : Int64, item = .integer i ∧ 0 ≤ i.toInt := by
  rw [conforms_iff]
  refine and_iff_left_of_imp ?_
  rintro ⟨i, rfl, -⟩ key sub hsub
  cases hsub

theorem conforms_truth_iff : Conforms .truth item ↔ ∃ b, item = .bool b := by
  rw [conforms_iff]
  refine and_iff_left_of_imp ?_
  rintro ⟨b, rfl⟩ key sub hsub
  cases hsub

/-- A table conforms to a group if it has no key but those of the group, and what it has at these
conforms. -/
theorem conforms_group_iff {members : List (String × Shape)} {kind : TableKind} {entries : Entries}
    (hmembers : (members.map Prod.fst).Nodup) :
    Conforms (.group members) (.table kind entries) ↔
      (∀ e ∈ entries, e.1 ∈ members.map Prod.fst) ∧
        ∀ m ∈ members, ∀ sub, entries.get? m.1 = some sub → Conforms m.2 sub := by
  rw [conforms_iff]
  constructor
  · rintro ⟨-, hall⟩
    refine ⟨?_, ?_⟩
    · intro e he
      -- what is found at the key need not be this entry, but it has a place in the shape
      have hfound : (entries.lookup e.1).isSome = true := by
        rw [Option.isSome_iff_ne_none, ne_eq, List.lookup_eq_none_iff]
        intro hnone
        simpa using hnone e he
      obtain ⟨sub, hsub⟩ := Option.isSome_iff_exists.1 hfound
      obtain ⟨part, hpart, -⟩ := hall e.1 sub hsub
      exact List.mem_map_of_mem (mem_of_lookup hpart)
    · intro m hm sub hsub
      obtain ⟨part, hpart, hconforms⟩ := hall m.1 sub hsub
      have hm' : members.lookup m.1 = some m.2 := (lookup_eq_some_iff_mem hmembers).2 hm
      obtain rfl := Option.some.inj (hpart.symm.trans hm')
      exact hconforms
  · rintro ⟨hkeys, hall⟩
    refine ⟨⟨kind, entries, rfl⟩, ?_⟩
    intro key sub hsub
    obtain ⟨m, hm, hkey⟩ := List.mem_map.1 (hkeys _ (mem_of_lookup hsub))
    obtain rfl : m.1 = key := hkey
    exact ⟨m.2, (lookup_eq_some_iff_mem hmembers).2 hm, hall m hm sub hsub⟩

/-- A table conforms to a shape with any keys if what it has at each key conforms. -/
theorem conforms_named_iff {each : Shape} {kind : TableKind} {entries : Entries} :
    Conforms (.named each) (.table kind entries) ↔
      ∀ key sub, entries.get? key = some sub → Conforms each sub := by
  rw [conforms_iff]
  constructor
  · rintro ⟨-, hall⟩ key sub hsub
    obtain ⟨part, hpart, hconforms⟩ := hall key sub hsub
    obtain rfl := Option.some.inj hpart
    exact hconforms
  · intro hall
    exact ⟨⟨kind, entries, rfl⟩, fun key sub hsub => ⟨each, rfl, hall key sub hsub⟩⟩

/-- Where no table belongs nothing has to be a table. -/
theorem tabular_of_isTable_eq_false (h : shape.isTable = false) : Tabular shape item := by
  rw [tabular_iff]
  cases shape with
  | natural | truth => exact ⟨by simp [Shape.isTable], by rintro _ _ _ _ ⟨⟩⟩
  | group | named => cases h

theorem tabular_group {members : List (String × Shape)} {kind : TableKind} {entries : Entries}
    (h : ∀ e ∈ entries, ∀ m ∈ members, m.1 = e.1 → Tabular m.2 e.2) :
    Tabular (.group members) (.table kind entries) := by
  rw [tabular_iff]
  refine ⟨fun _ => ⟨kind, entries, rfl⟩, ?_⟩
  intro key sub part hsub hpart
  exact h _ (mem_of_lookup hsub) _ (mem_of_lookup hpart) rfl

theorem tabular_named {each : Shape} {kind : TableKind} {entries : Entries}
    (h : ∀ e ∈ entries, Tabular each e.2) : Tabular (.named each) (.table kind entries) := by
  rw [tabular_iff]
  refine ⟨fun _ => ⟨kind, entries, rfl⟩, ?_⟩
  intro key sub part hsub hpart
  obtain rfl := Option.some.inj hpart
  exact h _ (mem_of_lookup hsub)

end Criteria.Toml
