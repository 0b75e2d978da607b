import Criteria.Filter

set_option autoImplicit false

/-! # Meaning and comparisons of joined filters

Joining drops a filter that is no condition and extends a filter of the same kind in place of
nesting it, so the tree of a joined filter is not the tree of the two operands. Two things do not
depend on that: for which rows the joined filter holds (`holds_andThen`, `holds_orElse`), and which
comparisons it has, read from left to right (`leaves_andThen`, `leaves_orElse`). -/

namespace Criteria

/-- A comparison at the end of a branch of a filter. -/
structure Leaf where
  op : Operator
  field : String
  value : Value
deriving DecidableEq

/-- The comparison as a filter of its own. -/
def Leaf.filter (l : Leaf) : Filter := .compare l.op l.field l.value

namespace Filter

/-! ## Comparisons -/

mutual

/-- The comparisons of a filter, from left to right. -/
def leaves : Filter → List Leaf
  | .always => []
  | .compare op field value => [⟨op, field, value⟩]
  | .all operands => leavesOf operands
  | .any operands => leavesOf operands

/-- The comparisons of a list of filters, from left to right. -/
def leavesOf : List Filter → List Leaf
  | [] => []
  | f :: fs => leaves f ++ leavesOf fs

end

@[simp] theorem leaves_filter (l : Leaf) : l.filter.leaves = [l] := rfl

theorem leavesOf_append (fs gs : List Filter) :
    leavesOf (fs ++ gs) = leavesOf fs ++ leavesOf gs := by
  induction fs with
  | nil => rfl
  | cons f fs ih => simp [leavesOf, ih]

theorem leaves_andThen (a b : Filter) : (a.andThen b).leaves = a.leaves ++ b.leaves := by
  unfold andThen
  split
  · rfl
  · simp [leaves]
  · simp [leaves, leavesOf, leavesOf_append]
  · simp [leaves, leavesOf]

theorem leaves_orElse (a b : Filter) : (a.orElse b).leaves = a.leaves ++ b.leaves := by
  unfold orElse
  split
  · rfl
  · simp [leaves]
  · simp [leaves, leavesOf, leavesOf_append]
  · simp [leaves, leavesOf]

/-! ## Rows -/

variable (row : String → Value)

theorem allHold_eq_all (fs : List Filter) : allHold row fs = fs.all (holds row) := by
  induction fs with
  | nil => rfl
  | cons f fs ih => simp [allHold, ih]

theorem anyHolds_eq_any (fs : List Filter) : anyHolds row fs = fs.any (holds row) := by
  induction fs with
  | nil => rfl
  | cons f fs ih => simp [anyHolds, ih]

theorem holds_andThen (a b : Filter) : (a.andThen b).holds row = (a.holds row && b.holds row) := by
  unfold andThen
  split
  · simp [holds]
  · simp [holds]
  · simp [holds, allHold_eq_all]
  · simp [holds, allHold]

/-- Either operand is enough, unless the other is no condition and was left out. -/
theorem holds_orElse {a b : Filter} (ha : a ≠ .always) (hb : b ≠ .always) :
    (a.orElse b).holds row = (a.holds row || b.holds row) := by
  unfold orElse
  split
  · exact absurd rfl ha
  · exact absurd rfl hb
  · simp [holds, anyHolds_eq_any]
  · simp [holds, anyHolds]

theorem andThen_ne_always {a b : Filter} (hb : b ≠ .always) : a.andThen b ≠ .always := by
  unfold andThen
  split
  · exact hb
  · exact absurd rfl hb
  · simp
  · simp

theorem orElse_ne_always {a b : Filter} (hb : b ≠ .always) : a.orElse b ≠ .always := by
  unfold orElse
  split
  · exact hb
  · exact absurd rfl hb
  · simp
  · simp

end Filter

end Criteria
