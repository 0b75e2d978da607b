import Criteria.Proofs.Compile
import Criteria.View

set_option autoImplicit false

/-! # Narrowed views

Applying criteria to a view is compiling them and, where that succeeds, narrowing the view once.
The view takes no part in whether it succeeds. -/

namespace Criteria

namespace View

variable {ρ : Type}

@[simp] theorem source_narrow (v : View ρ) (e : Entity ρ) (f : Filter) :
    (v.narrow e f).source = v.source := rfl

@[simp] theorem positions_narrow (v : View ρ) (e : Entity ρ) (f : Filter) :
    (v.narrow e f).positions = v.positions.filter (v.meets e f) := rfl

theorem filterMap_range_getElem? (rows : List ρ) :
    (List.range rows.length).filterMap (fun i => rows[i]?) = rows := by
  have hmap : (List.range rows.length).map (fun i => rows[i]?) = rows.map some := by
    refine List.ext_getElem (by simp) ?_
    intro i hi hi'
    have hlt : i < rows.length := by simpa using hi'
    simp [hlt]
  calc (List.range rows.length).filterMap (fun i => rows[i]?)
      = ((List.range rows.length).map fun i => rows[i]?).filterMap id := by
        rw [List.filterMap_map]
        rfl
    _ = (rows.map some).filterMap id := by rw [hmap]
    _ = rows := by
        rw [List.filterMap_map]
        exact List.filterMap_some

/-- The selected rows are those at the selected positions, however the positions are kept. -/
theorem items_eq (v : View ρ) : v.items = v.positions.filterMap fun i => v.source.rows[i]? := by
  unfold items positions
  cases v.selection with
  | none => exact (filterMap_range_getElem? v.source.rows).symm
  | some positions => rfl

theorem meets_eq_true_iff {v : View ρ} {e : Entity ρ} {f : Filter} {i : Nat} :
    v.meets e f i = true ↔ ∃ row, v.source.rows[i]? = some row ∧ f.holds (e.value row) = true := by
  unfold meets
  cases v.source.rows[i]? <;> simp

theorem meets_of_row {v : View ρ} {e : Entity ρ} {f : Filter} {i : Nat} {row : ρ}
    (hrow : v.source.rows[i]? = some row) : v.meets e f i = f.holds (e.value row) := by
  rw [meets, hrow]

/-- Every selected position is one of a row. -/
def InBounds (v : View ρ) : Prop := ∀ i ∈ v.positions, i < v.source.rows.length

theorem inBounds_all (source : Source ρ) : (View.mk source none).InBounds := by
  intro i hi
  exact List.mem_range.1 hi

theorem meets_always {v : View ρ} {e : Entity ρ} {i : Nat} (h : i < v.source.rows.length) :
    v.meets e .always i = true :=
  meets_eq_true_iff.2 ⟨v.source.rows[i], List.getElem?_eq_getElem h, rfl⟩

variable (env : Environment) (e : Entity ρ) (v : View ρ)

@[simp] theorem outcome_apply_nil : (v.apply env e []).outcome = .ok v := rfl

theorem outcome_apply_eq (cs : List Criterion) :
    (v.apply env e cs).outcome = (compile env e.toSchema cs).outcome.map fun f =>
      if cs.isEmpty then v else v.narrow e f := by
  unfold apply
  cases cs with
  | nil => rfl
  | cons c cs =>
      rw [if_neg (by simp), Traced.outcome_bind]
      cases (compile env e.toSchema (c :: cs)).outcome <;> rfl

theorem outcome_apply {cs : List Criterion} (hcs : cs ≠ []) :
    (v.apply env e cs).outcome = (compile env e.toSchema cs).outcome.map (v.narrow e) := by
  rw [outcome_apply_eq]
  simp only [List.isEmpty_iff, hcs, if_false]

/-- Whether criteria can be applied, and the report if they cannot, is decided by compiling. -/
theorem apply_ok_iff {cs : List Criterion} :
    (∃ w, (v.apply env e cs).outcome = .ok w) ↔
      ∃ f, (compile env e.toSchema cs).outcome = .ok f := by
  rw [outcome_apply_eq]
  cases (compile env e.toSchema cs).outcome <;> simp [Except.map]

theorem apply_error_iff {cs : List Criterion} {r : Report} :
    (v.apply env e cs).outcome = .error r ↔ (compile env e.toSchema cs).outcome = .error r := by
  rw [outcome_apply_eq]
  cases (compile env e.toSchema cs).outcome <;> simp [Except.map]

end View

end Criteria
