import Criteria.Compile

set_option autoImplicit false

/-! # Views

A view selects rows of a source: all of them, or those at listed positions. Narrowing a view by a
filter keeps the positions whose rows meet the filter, in order. Sources have an identity of their
own: two views select the same only if they are views of one source, however equal the rows of
another may be. -/

namespace Criteria

/-- Rows with an identity. -/
structure Source (ρ : Type) where
  tag : Nat
  rows : List ρ

/-- Some rows of a source. -/
structure View (ρ : Type) where
  source : Source ρ
  /-- The positions of the selected rows; `none` selects all. -/
  selection : Option (List Nat) := none

namespace View

variable {ρ : Type}

/-- The positions of the selected rows, in order. -/
def positions (v : View ρ) : List Nat := v.selection.getD (List.range v.source.rows.length)

/-- The selected rows, in order. -/
def items (v : View ρ) : List ρ :=
  match v.selection with
  | none => v.source.rows
  | some positions => positions.filterMap fun i => v.source.rows[i]?

/-- The number of selected rows. -/
def length (v : View ρ) : Nat :=
  match v.selection with
  | none => v.source.rows.length
  | some positions => positions.length

/-- No row is selected. -/
def isEmpty (v : View ρ) : Bool := v.length == 0

/-- The first selected row. -/
def first? (v : View ρ) : Option ρ := v.items.head?

/-- Two views select the same positions of the same source. -/
def sameSelection (a b : View ρ) : Bool :=
  a.source.tag == b.source.tag && a.positions == b.positions

/-- The row at a position meets the filter. -/
def meets (v : View ρ) (e : Entity ρ) (f : Filter) (position : Nat) : Bool :=
  match v.source.rows[position]? with
  | some row => f.holds (e.value row)
  | none => false

/-- The selected rows that meet a filter. -/
def narrow (v : View ρ) (e : Entity ρ) (f : Filter) : View ρ :=
  { v with selection := some (v.positions.filter (v.meets e f)) }

/-- The selected rows that meet criteria; without any criteria, the view as it is. -/
def apply (env : Environment) (e : Entity ρ) (v : View ρ) (criteria : List Criterion) :
    Traced Report (View ρ) := do
  if criteria.isEmpty then return v
  else
    let filter ← compile env e.toSchema criteria
    Traced.emit (.filterApplied e.name criteria.length filter.render)
    return v.narrow e filter

end View

end Criteria
