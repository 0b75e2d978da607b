import Criteria.Proofs.View

set_option autoImplicit false

/-! # The first fault decides

A list of criteria is compiled as a whole or not at all. Whether a criterion can be compiled does
not depend on its neighbours or on the rows; the answer to a list that cannot be compiled is the
report of its first bad criterion, changed in nothing but the position. -/

namespace Criteria

variable {ρ : Type} (env : Environment) (e : Entity ρ) (cs : List Criterion)

/-- **Compiling is all or nothing.** It succeeds if and only if every criterion can be compiled by
itself, and otherwise gives the report of the first that cannot, at its position; what follows that
position does not matter, and applying the criteria to any view fails in the same way. -/
theorem compile_all_or_first_fault :
    ((∃ f, (compile env e.toSchema cs).outcome = .ok f) ↔
      ∀ c ∈ cs, ∃ f, c.filter e.toSchema = .ok f) ∧
    (∀ r, (compile env e.toSchema cs).outcome = .error r ↔
      ∃ i r', FirstFault e.toSchema cs i r' ∧
        r = { r' with context := { r'.context with index := some i } }) ∧
    (∀ ds i r, FirstFault e.toSchema cs i r → ds.take (i + 1) = cs.take (i + 1) →
      (compile env e.toSchema cs).outcome = .error (r.atIndex i) ∧
        (compile env e.toSchema ds).outcome = .error (r.atIndex i)) ∧
    ∀ (v : View ρ) (r : Report), (v.apply env e cs).outcome = .error r ↔
      (compile env e.toSchema cs).outcome = .error r := by
  refine ⟨compileFrom_ok_iff, fun r => compile_error_iff, ?_, fun v r => v.apply_error_iff env e⟩
  intro ds i r hfault htake
  have hagree : ∀ j, j ≤ i → ds[j]? = cs[j]? := by
    intro j hj
    have hlt : j < i + 1 := Nat.lt_succ_of_le hj
    rw [← List.getElem?_take_of_lt hlt, htake, List.getElem?_take_of_lt hlt]
  exact ⟨compile_error_iff.2 ⟨i, r, hfault, rfl⟩,
    compile_error_iff.2 ⟨i, r, hfault.congr hagree, rfl⟩⟩

end Criteria
