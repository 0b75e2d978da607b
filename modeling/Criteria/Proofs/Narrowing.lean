import Criteria.Proofs.Verdict

set_option autoImplicit false

/-! # Chains of narrowing steps

A view is narrowed step by step: by listing with a payload, by applying criteria, or by a filter of
any shape. Whether a step succeeds, and the filter it narrows by, do not depend on the view
(`Narrowing.run_eq`). A step without criteria leaves the view as it is, selection and all, and any
other step lists the positions it keeps; the positions are the same in both ways
(`Narrowing.positions_run`). So a whole chain selects the positions that every step keeps
(`positions_narrowAll`), and neither the order of the steps nor how often one is taken matters. -/

namespace Criteria

variable {ρ : Type}

/-! ## Steps -/

/-- A step that narrows a view. -/
inductive Narrowing where
  /-- Listing with a payload. -/
  | list (env : Environment) (point : Endpoint) (who : Principal) (payload : Option String)
  /-- Applying criteria, if there are any. -/
  | apply (env : Environment) (criteria : Option (List Criterion))
  /-- Narrowing by a filter, whether it can be compiled from criteria or not. -/
  | filter (f : Filter)

namespace Narrowing

/-- The view that a step comes to. -/
def run (e : Entity ρ) (view : View ρ) : Narrowing → Except Report (View ρ)
  | .list env point who payload => (point.findMany env e who view payload).outcome
  | .apply env criteria => (view.apply env e (criteria.getD [])).outcome
  | .filter f => .ok (view.narrow e f)

/-- The filter of a step. -/
def condition (s : Schema) : Narrowing → Except Report Filter
  | .list env point who payload =>
      if point.gate who s.name .read then
        (point.limits.decode payload).outcome.bind fun cs => (compile env s cs).outcome
      else .error (.accessDenied s.name "Read")
  | .apply env criteria => (compile env s (criteria.getD [])).outcome
  | .filter f => .ok f

/-- The filter of a step matches a row. -/
def Admits (step : Narrowing) (e : Entity ρ) (row : ρ) : Prop :=
  ∃ f, step.condition e.toSchema = .ok f ∧ f.holds (e.value row) = true

/-- A step has no criteria: its payload is blank or lists none, or none are applied. -/
def IsBlank : Narrowing → Prop
  | .list _ point _ payload => (point.limits.decode payload).outcome = .ok []
  | .apply _ criteria => criteria.getD [] = []
  | .filter _ => False

/-- A blank step that can be taken imposes no condition. -/
theorem condition_of_isBlank {step : Narrowing} {s : Schema} {f : Filter} (hblank : step.IsBlank)
    (hf : step.condition s = .ok f) : f = .always := by
  cases step with
  | list env point who payload =>
      have hdecode : (point.limits.decode payload).outcome = .ok [] := hblank
      rw [condition, hdecode] at hf
      split at hf
      · cases hf
        rfl
      · cases hf
  | apply env criteria =>
      have hnone : criteria.getD [] = [] := hblank
      rw [condition, hnone] at hf
      cases hf
      rfl
  | filter g => exact hblank.elim

/-- A step fails, or narrows by its filter, or, if that is no condition, may leave the view as it
is. -/
theorem run_eq (step : Narrowing) (e : Entity ρ) (view : View ρ) :
    ∃ keep : Bool, (keep = true → ∀ f, step.condition e.toSchema = .ok f → f = .always) ∧
      step.run e view = (step.condition e.toSchema).map fun f =>
        if keep then view else view.narrow e f := by
  cases step with
  | list env point who payload =>
      rw [run, condition, Endpoint.outcome_findMany_eq]
      split
      · rw [Endpoint.checkPayload]
        cases (point.limits.decode payload).outcome with
        | error r => exact ⟨false, fun h => absurd h (by decide), rfl⟩
        | ok cs =>
            refine ⟨cs.isEmpty, ?_, ?_⟩
            · intro hempty f hf
              cases List.isEmpty_iff.1 hempty
              cases hf
              rfl
            · show ((compile env e.toSchema cs).outcome.map _).map _ =
                (compile env e.toSchema cs).outcome.map _
              cases (compile env e.toSchema cs).outcome <;> rfl
      · exact ⟨false, fun h => absurd h (by decide), rfl⟩
  | apply env criteria =>
      refine ⟨(criteria.getD []).isEmpty, ?_, View.outcome_apply_eq env e view _⟩
      intro hempty f hf
      rw [condition, List.isEmpty_iff.1 hempty] at hf
      cases hf
      rfl
  | filter f => exact ⟨false, fun h => absurd h (by decide), rfl⟩

/-- A step succeeds on one view if and only if it does on any other. -/
theorem run_ok_iff (step : Narrowing) (e : Entity ρ) (view : View ρ) :
    (∃ w, step.run e view = .ok w) ↔ ∃ f, step.condition e.toSchema = .ok f := by
  obtain ⟨keep, -, hrun⟩ := step.run_eq e view
  rw [hrun]
  cases step.condition e.toSchema <;> simp [Except.map]

/-- A step keeps the position of a row that its filter matches. -/
def keeps (step : Narrowing) (e : Entity ρ) (source : Source ρ) (position : Nat) : Bool :=
  match step.condition e.toSchema with
  | .ok f => (View.mk source none).meets e f position
  | .error _ => false

theorem keeps_iff {step : Narrowing} {e : Entity ρ} {source : Source ρ} {i : Nat} :
    step.keeps e source i = true ↔ ∃ row, source.rows[i]? = some row ∧ step.Admits e row := by
  unfold keeps Admits
  cases step.condition e.toSchema with
  | error r => simp
  | ok f => simpa using View.meets_eq_true_iff (v := ⟨source, none⟩)

/-- A step goes on with the positions that it keeps. -/
theorem positions_run {step : Narrowing} {e : Entity ρ} {view w : View ρ} (hview : view.InBounds)
    (hw : step.run e view = .ok w) :
    w.source = view.source ∧ w.positions = view.positions.filter (step.keeps e view.source) := by
  obtain ⟨keep, hkeep, hrun⟩ := step.run_eq e view
  rw [hrun] at hw
  cases hf : step.condition e.toSchema with
  | error r =>
      rw [hf] at hw
      cases hw
  | ok f =>
      have hkeeps : step.keeps e view.source = view.meets e f := by
        funext i
        rw [keeps, hf]
        rfl
      rw [hf] at hw
      rw [hkeeps]
      cases keep with
      | false =>
          cases hw
          exact ⟨rfl, rfl⟩
      | true =>
          -- The filter of a step that leaves the view as it is matches every row.
          cases hw
          cases hkeep rfl f hf
          exact ⟨rfl, (List.filter_eq_self.2 fun i hi => View.meets_always (hview i hi)).symm⟩

theorem inBounds_run {step : Narrowing} {e : Entity ρ} {view w : View ρ} (hview : view.InBounds)
    (hw : step.run e view = .ok w) : w.InBounds := by
  obtain ⟨hsource, hpositions⟩ := positions_run hview hw
  intro i hi
  rw [hsource]
  rw [hpositions] at hi
  exact hview i (List.mem_filter.1 hi).1

/-- The rows of a view that a step comes to are among those that it starts from, in their order. -/
theorem items_run_sublist {step : Narrowing} {e : Entity ρ} {view w : View ρ}
    (hview : view.InBounds) (hw : step.run e view = .ok w) : w.items.Sublist view.items := by
  obtain ⟨hsource, hpositions⟩ := positions_run hview hw
  rw [View.items_eq, View.items_eq, hsource, hpositions]
  exact List.filter_sublist.filterMap _

end Narrowing

/-! ## Chains -/

/-- The view that steps come to, one after another, as long as they succeed. -/
def narrowAll (e : Entity ρ) (view : View ρ) (steps : List Narrowing) : Except Report (View ρ) :=
  steps.foldlM (fun view step => step.run e view) view

section

variable {e : Entity ρ} {view w : View ρ}

theorem narrowAll_cons_eq_ok_iff {step : Narrowing} {steps : List Narrowing} :
    narrowAll e view (step :: steps) = .ok w ↔
      ∃ next, step.run e view = .ok next ∧ narrowAll e next steps = .ok w := by
  rw [narrowAll, List.foldlM_cons]
  exact bind_eq_ok_iff

theorem narrowAll_append_eq_ok_iff {before after : List Narrowing} :
    narrowAll e view (before ++ after) = .ok w ↔
      ∃ next, narrowAll e view before = .ok next ∧ narrowAll e next after = .ok w := by
  rw [narrowAll, List.foldlM_append]
  exact bind_eq_ok_iff

/-- A chain succeeds if and only if each of its steps would by itself. -/
theorem narrowAll_ok_iff {steps : List Narrowing} :
    (∃ w, narrowAll e view steps = .ok w) ↔
      ∀ step ∈ steps, ∃ f, step.condition e.toSchema = .ok f := by
  induction steps generalizing view with
  | nil => exact ⟨fun _ step hstep => absurd hstep (by simp), fun _ => ⟨view, rfl⟩⟩
  | cons step steps ih =>
      simp only [narrowAll_cons_eq_ok_iff, List.forall_mem_cons]
      constructor
      · rintro ⟨w, next, hnext, hw⟩
        exact ⟨(step.run_ok_iff e view).1 ⟨next, hnext⟩, ih.1 ⟨w, hw⟩⟩
      · rintro ⟨hstep, hsteps⟩
        obtain ⟨next, hnext⟩ := (step.run_ok_iff e view).2 hstep
        obtain ⟨w, hw⟩ : ∃ w, narrowAll e next steps = .ok w := ih.2 hsteps
        exact ⟨w, next, hnext, hw⟩

/-- A chain goes on with the positions that every step keeps. -/
theorem positions_narrowAll {steps : List Narrowing} (hview : view.InBounds)
    (hw : narrowAll e view steps = .ok w) :
    w.InBounds ∧ w.source = view.source ∧
      w.positions = view.positions.filter fun i => steps.all fun step =>
        step.keeps e view.source i := by
  induction steps generalizing view with
  | nil =>
      cases hw
      exact ⟨hview, rfl, (List.filter_eq_self.2 fun _ _ => rfl).symm⟩
  | cons step steps ih =>
      obtain ⟨next, hnext, hrest⟩ := narrowAll_cons_eq_ok_iff.1 hw
      obtain ⟨hsource, hpositions⟩ := Narrowing.positions_run hview hnext
      obtain ⟨hbounds, hsource', hpositions'⟩ := ih (Narrowing.inBounds_run hview hnext) hrest
      refine ⟨hbounds, hsource'.trans hsource, ?_⟩
      rw [hpositions', hpositions, hsource, List.filter_filter]
      simp only [List.all_cons, Bool.and_comm]

end

section

variable {e : Entity ρ} {source : Source ρ} {steps : List Narrowing} {w : View ρ}

/-- A chain on a whole source selects the rows that the filters of all its steps match. -/
theorem mem_positions_narrowAll (h : narrowAll e ⟨source, none⟩ steps = .ok w) {i : Nat} :
    i ∈ w.positions ↔ ∃ row, source.rows[i]? = some row ∧ ∀ step ∈ steps, step.Admits e row := by
  obtain ⟨-, -, hpositions⟩ := positions_narrowAll (View.inBounds_all source) h
  rw [hpositions, List.mem_filter, List.all_eq_true]
  simp only [Narrowing.keeps_iff]
  constructor
  · rintro ⟨hi, hkept⟩
    have hlt : i < source.rows.length := List.mem_range.1 hi
    refine ⟨source.rows[i], List.getElem?_eq_getElem hlt, ?_⟩
    intro step hstep
    obtain ⟨row, hrow, hadmits⟩ := hkept step hstep
    rw [List.getElem?_eq_getElem hlt] at hrow
    rwa [Option.some.inj hrow]
  · rintro ⟨row, hrow, hadmits⟩
    obtain ⟨hlt, -⟩ := List.getElem?_eq_some_iff.1 hrow
    exact ⟨List.mem_range.2 hlt, fun step hstep => ⟨row, hrow, hadmits step hstep⟩⟩

/-- Chains of the same steps select the same. -/
theorem narrowAll_of_mem_iff (h : narrowAll e ⟨source, none⟩ steps = .ok w)
    {others : List Narrowing} (hothers : ∀ step, step ∈ others ↔ step ∈ steps) :
    ∃ w', narrowAll e ⟨source, none⟩ others = .ok w' ∧ w'.sameSelection w = true := by
  have hbounds := View.inBounds_all source
  obtain ⟨-, hsource, hpositions⟩ := positions_narrowAll hbounds h
  have hconditions := narrowAll_ok_iff.1 ⟨w, h⟩
  obtain ⟨w', hw'⟩ := narrowAll_ok_iff.2 fun step hstep => hconditions step ((hothers step).1 hstep)
  obtain ⟨-, hsource', hpositions'⟩ := positions_narrowAll hbounds hw'
  have hsame : w'.positions = w.positions := by
    rw [hpositions, hpositions']
    refine List.filter_congr fun i _ => ?_
    rw [Bool.eq_iff_iff, List.all_eq_true, List.all_eq_true]
    simp only [hothers]
  exact ⟨w', hw', by simp [View.sameSelection, hsource, hsource', hsame]⟩

end

/-- **A chain of narrowing steps selects the rows that the filters of all its steps match.** It
selects their positions in the source, in ascending order and each once; so the same steps in any
other order and any number of times select the same. A blank step imposes no condition, and the rows
after a step are among those before it. -/
theorem narrowAll_selects {e : Entity ρ} {source : Source ρ} {steps : List Narrowing} {w : View ρ}
    (h : narrowAll e ⟨source, none⟩ steps = .ok w) :
    w.source = source ∧ w.positions.Pairwise (· < ·) ∧
    (∀ i, i ∈ w.positions ↔
      ∃ row, source.rows[i]? = some row ∧ ∀ step ∈ steps, step.Admits e row) ∧
    (∀ step ∈ steps, step.IsBlank → ∀ row, step.Admits e row) ∧
    (∀ others : List Narrowing, (∀ step, step ∈ others ↔ step ∈ steps) →
      ∃ w', narrowAll e ⟨source, none⟩ others = .ok w' ∧ w'.sameSelection w = true) ∧
    ∀ before step after, steps = before ++ step :: after → ∃ parent child,
      narrowAll e ⟨source, none⟩ before = .ok parent ∧ step.run e parent = .ok child ∧
        narrowAll e child after = .ok w ∧ child.items.Sublist parent.items := by
  have hbounds := View.inBounds_all source
  obtain ⟨-, hsource, hpositions⟩ := positions_narrowAll hbounds h
  refine ⟨hsource, ?_, fun i => mem_positions_narrowAll h, ?_,
    fun others => narrowAll_of_mem_iff h, ?_⟩
  · rw [hpositions]
    exact List.Pairwise.filter _ List.pairwise_lt_range
  · intro step hstep hblank row
    obtain ⟨f, hf⟩ := narrowAll_ok_iff.1 ⟨w, h⟩ step hstep
    refine ⟨f, hf, ?_⟩
    rw [Narrowing.condition_of_isBlank hblank hf]
    rfl
  · intro before step after hsteps
    rw [hsteps] at h
    obtain ⟨parent, hparent, hrest⟩ := narrowAll_append_eq_ok_iff.1 h
    obtain ⟨child, hchild, hafter⟩ := narrowAll_cons_eq_ok_iff.1 hrest
    have hparentBounds := (positions_narrowAll hbounds hparent).1
    exact ⟨parent, child, hparent, hchild, hafter,
      Narrowing.items_run_sublist hparentBounds hchild⟩

/-- Steps on pairs of each kind: a payload, no criteria, a filter that no criteria come to, and a
further criterion. -/
def pairsSteps : List Narrowing :=
  [.list {} ⟨Gate.allowAll, {}, false⟩ ⟨"acme", "alice", []⟩ (some pairsPayload),
    .apply {} none,
    .filter (.any [.all [], .any [], .always]),
    .apply {} (some [⟨"Q", "<", .int 5⟩])]

theorem narrowAll_selects_pairs :
    ∃ w w', narrowAll pairs threePairs pairsSteps = .ok w ∧ w.positions = [0] ∧
      (∀ i, i ∈ w.positions ↔ ∃ row, threePairs.source.rows[i]? = some row ∧
        ∀ step ∈ pairsSteps, step.Admits pairs row) ∧
      narrowAll pairs threePairs (pairsSteps.reverse ++ pairsSteps) = .ok w' ∧
      w'.sameSelection w = true := by
  have hpayload : (Limits.decode {} (some pairsPayload)).outcome = .ok pairsCriteria := by
    decide +kernel
  have hlist : (pairsSteps.head (by simp [pairsSteps])).run pairs threePairs =
      .ok ⟨threePairs.source, some [0, 2]⟩ := by
    show (Endpoint.findMany _ _ _ _ _ _).outcome = _
    rw [Endpoint.outcome_findMany_of_allowed rfl, hpayload]
    rfl
  have h : narrowAll pairs threePairs pairsSteps = .ok ⟨threePairs.source, some [0]⟩ :=
    narrowAll_cons_eq_ok_iff.2 ⟨_, hlist, rfl⟩
  obtain ⟨-, -, hmem, -, hothers, -⟩ := narrowAll_selects h
  obtain ⟨w', hw', hsame⟩ := hothers (pairsSteps.reverse ++ pairsSteps) (by simp)
  exact ⟨_, w', h, rfl, hmem, hw', hsame⟩

end Criteria
