import Criteria.Proofs.Reachable
import Criteria.Proofs.WellTyped
import Mathlib.Data.List.Lattice

set_option autoImplicit false

/-! # What the six comparisons select

Equality and order are asked for in two different ways: a value can be equal to a constant because
both are null, but it comes before or after one only if the two compare. Nevertheless the six
comparisons of one field with one constant fit together. With a constant other than null, the rows
that are less, equal and greater are a partition of the rows that compare with it, and the other
three comparisons follow from these (`View.SplitByOrder`); with null, a row is either null or not,
and has no order (`View.SplitByNull`). -/

namespace Criteria

open Number

/-! ## Values -/

theorem Value.compare_nan_left (v : Value) : (Value.float .nan).compare v = none := by
  cases v <;> rfl

/-- Values of different kinds do not compare. -/
theorem Value.compare_eq_none_of_kind?_ne {a b : Value} (h : a.kind? ≠ b.kind?) :
    a.compare b = none := by
  cases a <;> cases b <;> first | rfl | exact absurd rfl h

namespace Operator

/-- Nothing but what compares as equal is equal to a constant other than null. -/
theorem compares_equal_iff {actual constant : Value} (hconstant : constant ≠ .null) :
    Operator.equal.Compares actual constant ↔ actual.compare constant = some .eq := by
  simp [Compares, hconstant]

/-- A value is less than a constant, equal to it or greater, unless the two do not compare. -/
theorem compares_less_or_equal_or_greater_iff {actual constant : Value}
    (hconstant : constant ≠ .null) :
    (Operator.less.Compares actual constant ∨ Operator.equal.Compares actual constant ∨
      Operator.greater.Compares actual constant) ↔ (actual.compare constant).isSome = true := by
  rw [compares_equal_iff hconstant, Compares, Compares]
  cases actual.compare constant with
  | none => simp
  | some o => cases o <;> simp

end Operator

/-! ## Rows -/

namespace View

variable {ρ : Type} {e : Entity ρ} {v : View ρ} {field : String} {constant : Value}

/-- The positions of a view that a comparison of a field with a constant selects. -/
def selected (v : View ρ) (e : Entity ρ) (field : String) (constant : Value) (op : Operator) :
    List Nat :=
  (v.narrow e (.compare op field constant)).positions

/-- The row at a position has a value of the field that compares with the constant. -/
def ComparesAt (v : View ρ) (e : Entity ρ) (field : String) (constant : Value) (i : Nat) : Prop :=
  ∃ row, v.source.rows[i]? = some row ∧ ((e.value row field).compare constant).isSome = true

theorem selected_sublist (op : Operator) :
    (v.selected e field constant op).Sublist v.positions :=
  List.filter_sublist

theorem mem_selected_iff {op : Operator} {i : Nat} :
    i ∈ v.selected e field constant op ↔ i ∈ v.positions ∧
      ∃ row, v.source.rows[i]? = some row ∧ op.Compares (e.value row field) constant := by
  rw [selected, positions_narrow, List.mem_filter, meets_eq_true_iff]
  simp only [Filter.holds, Operator.holds_iff_compares]

theorem mem_selected_iff_of_row {op : Operator} {i : Nat} {row : ρ}
    (hrow : v.source.rows[i]? = some row) :
    i ∈ v.selected e field constant op ↔
      i ∈ v.positions ∧ op.Compares (e.value row field) constant := by
  rw [selected, positions_narrow, List.mem_filter, meets_of_row hrow, Filter.holds,
    Operator.holds_iff_compares]

/-- Comparisons that no value meets together select no row together. -/
theorem disjoint_selected {op other : Operator}
    (h : ∀ actual, op.Compares actual constant → ¬other.Compares actual constant) :
    (v.selected e field constant op).Disjoint (v.selected e field constant other) := by
  intro i hop hother
  obtain ⟨-, row, hrow, hcompares⟩ := mem_selected_iff.1 hop
  exact h _ hcompares ((mem_selected_iff_of_row hrow).1 hother).2

/-- A comparison that says that one of two others holds selects what the two select. -/
theorem mem_selected_iff_or {op a b : Operator}
    (h : ∀ actual, op.Compares actual constant ↔
      a.Compares actual constant ∨ b.Compares actual constant) {i : Nat} :
    i ∈ v.selected e field constant op ↔
      i ∈ v.selected e field constant a ∨ i ∈ v.selected e field constant b := by
  simp only [mem_selected_iff, h, and_or_left, exists_or]

/-- What is not equal is everything that is left by what is equal. -/
theorem mem_selected_notEqual_iff (hv : v.InBounds) {i : Nat} :
    i ∈ v.selected e field constant .notEqual ↔
      i ∈ v.positions ∧ i ∉ v.selected e field constant .equal := by
  constructor
  · intro h
    obtain ⟨hi, row, hrow, hnot⟩ := mem_selected_iff.1 h
    exact ⟨hi, fun hequal => hnot ((mem_selected_iff_of_row hrow).1 hequal).2⟩
  · rintro ⟨hi, hnot⟩
    have hrow := List.getElem?_eq_getElem (hv i hi)
    rw [mem_selected_iff_of_row hrow] at hnot ⊢
    exact ⟨hi, fun hequal => hnot ⟨hi, hequal⟩⟩

/-- How the comparisons of a field with a constant other than null split a view. -/
structure SplitByOrder (v : View ρ) (e : Entity ρ) (field : String) (constant : Value) :
    Prop where
  less_equal : (v.selected e field constant .less).Disjoint (v.selected e field constant .equal)
  less_greater :
    (v.selected e field constant .less).Disjoint (v.selected e field constant .greater)
  equal_greater :
    (v.selected e field constant .equal).Disjoint (v.selected e field constant .greater)
  /-- What is less, equal or greater is what compares at all. -/
  comparable : ∀ i, (i ∈ v.selected e field constant .less ∨
    i ∈ v.selected e field constant .equal ∨ i ∈ v.selected e field constant .greater) ↔
      i ∈ v.positions ∧ v.ComparesAt e field constant i
  lessOrEqual : ∀ i, i ∈ v.selected e field constant .lessOrEqual ↔
    i ∈ v.selected e field constant .less ∨ i ∈ v.selected e field constant .equal
  greaterOrEqual : ∀ i, i ∈ v.selected e field constant .greaterOrEqual ↔
    i ∈ v.selected e field constant .greater ∨ i ∈ v.selected e field constant .equal
  notEqual : ∀ i, i ∈ v.selected e field constant .notEqual ↔
    i ∈ v.positions ∧ i ∉ v.selected e field constant .equal
  /-- Null, what is not a number and values of another kind are not equal to the constant. -/
  incomparable : ∀ i ∈ v.positions, ∀ row, v.source.rows[i]? = some row →
    (e.value row field = .null ∨ e.value row field = .float .nan ∨
      (e.value row field).kind? ≠ constant.kind?) → i ∈ v.selected e field constant .notEqual

/-- How the comparisons of a field with null split a view. -/
structure SplitByNull (v : View ρ) (e : Entity ρ) (field : String) : Prop where
  /-- A field is equal to null if it is null or the row does not know it. -/
  equal : ∀ i, i ∈ v.selected e field .null .equal ↔ i ∈ v.positions ∧
    ∃ row, v.source.rows[i]? = some row ∧
      (e.read row field = some .null ∨ e.read row field = none)
  notEqual : ∀ i, i ∈ v.selected e field .null .notEqual ↔
    i ∈ v.positions ∧ i ∉ v.selected e field .null .equal
  ordering : ∀ op, op.isOrdering = true → v.selected e field .null op = []

theorem splitByOrder (hv : v.InBounds) (hconstant : constant ≠ .null) :
    v.SplitByOrder e field constant where
  less_equal := disjoint_selected fun actual hless hequal => by
    rw [Operator.compares_equal_iff hconstant] at hequal
    exact absurd (hless.symm.trans hequal) (by decide)
  less_greater := disjoint_selected fun actual hless hgreater =>
    absurd (hless.symm.trans hgreater) (by decide)
  equal_greater := disjoint_selected fun actual hequal hgreater => by
    rw [Operator.compares_equal_iff hconstant] at hequal
    exact absurd (hequal.symm.trans hgreater) (by decide)
  comparable := fun i => by
    simp only [mem_selected_iff, ComparesAt, ← and_or_left, ← exists_or,
      Operator.compares_less_or_equal_or_greater_iff hconstant]
  lessOrEqual := fun i => mem_selected_iff_or fun actual => by
    rw [Operator.compares_equal_iff hconstant]
    rfl
  greaterOrEqual := fun i => mem_selected_iff_or fun actual => by
    rw [Operator.compares_equal_iff hconstant]
    rfl
  notEqual := fun i => mem_selected_notEqual_iff hv
  incomparable := fun i hi row hrow hvalue => by
    have hnone : (e.value row field).compare constant = none := by
      rcases hvalue with hnull | hnan | hkind
      · rw [hnull, Value.compare_null_left]
      · rw [hnan, Value.compare_nan_left]
      · exact Value.compare_eq_none_of_kind?_ne hkind
    refine (mem_selected_iff_of_row hrow).2 ⟨hi, ?_⟩
    intro hequal
    have hcompare := (Operator.compares_equal_iff hconstant).1 hequal
    rw [hnone] at hcompare
    cases hcompare

theorem splitByNull (hv : v.InBounds) : v.SplitByNull e field where
  equal := fun i => by
    have hread : ∀ row, Operator.equal.Compares (e.value row field) .null ↔
        e.read row field = some .null ∨ e.read row field = none := by
      intro row
      rw [Operator.compares_null_comm, Entity.value]
      cases e.read row field with
      | none => simp [Operator.compares_null_iff]
      | some value => simp [Operator.compares_null_iff]
    simp only [mem_selected_iff, hread]
  notEqual := fun i => mem_selected_notEqual_iff hv
  ordering := fun op hop => by
    rw [List.eq_nil_iff_forall_not_mem]
    intro i hi
    obtain ⟨-, row, -, hcompares⟩ := mem_selected_iff.1 hi
    rw [Operator.compares_null_comm, Operator.compares_null_iff] at hcompares
    rcases hcompares with ⟨rfl, -⟩ | ⟨rfl, -⟩ <;> exact absurd hop (by decide)

/-- **The comparisons of a field with a constant split a view.** Each selects positions in the order
of the view. With a constant other than null, those that are less, equal and greater do not overlap
and together are those that compare with it, and the other comparisons are made of these; with null,
a row is equal to it or not and nothing else. -/
theorem comparisons_split (hv : v.Reachable e) (field : String) :
    (∀ constant op, (v.selected e field constant op).Sublist v.positions) ∧
    (∀ constant, constant ≠ .null → v.SplitByOrder e field constant) ∧
    v.SplitByNull e field := by
  have hbounds := hv.ordered.inBounds
  exact ⟨fun constant op => selected_sublist op,
    fun constant hconstant => splitByOrder hbounds hconstant, splitByNull hbounds⟩

/-- Readings of an instrument, which need not be numbers, as rows of an entity. -/
def readings : Entity (Option Value) where
  name := "Reading"
  fields := [⟨"Level", .decimal, true⟩]
  idField := "Level"
  read row field := if field = "Level" then row else none

/-- A level of `coefficient · 10 ^ (-scale)`. -/
def level? (coefficient scale : Nat) : Option Value :=
  (Decimal.ofParts? false coefficient scale).map .decimal

/-- A reading that is lower than 1.5, one that is equal, one that is higher, and three that do not
compare with it. -/
def sixReadings : View (Option Value) :=
  ⟨⟨0, [level? 14 1, level? 150 2, level? 2 0, some .null, none, some (.float .nan)]⟩, none⟩

theorem comparisons_split_readings :
    ∃ constant, level? 15 1 = some constant ∧ sixReadings.Reachable readings ∧
      constant ≠ .null ∧ sixReadings.SplitByOrder readings "Level" constant ∧
      sixReadings.selected readings "Level" constant .less = [0] ∧
      sixReadings.selected readings "Level" constant .equal = [1] ∧
      sixReadings.selected readings "Level" constant .greater = [2] ∧
      sixReadings.selected readings "Level" constant .notEqual = [0, 2, 3, 4, 5] ∧
      sixReadings.SplitByNull readings "Level" ∧
      sixReadings.selected readings "Level" .null .equal = [3, 4] := by
  have hreachable : sixReadings.Reachable readings := .all _
  obtain ⟨-, hsplit, hnull⟩ := comparisons_split hreachable "Level"
  refine ⟨.decimal ⟨false, 15, 1, by decide, by decide⟩, rfl, hreachable, nofun, hsplit _ nofun,
    ?_, ?_, ?_, ?_, hnull, ?_⟩ <;> decide +kernel

end View

end Criteria
