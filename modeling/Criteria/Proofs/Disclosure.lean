import Criteria.Proofs.Endpoint
import Criteria.Proofs.Payload.Limits

set_option autoImplicit false

/-! # What failures disclose

An endpoint looks at the gate, then at the request, and only then at the rows. So a denial is the
same for every request, and any other failure is the same for every view (`Discreet.of_check`). The
status of a failure tells the two apart, because nothing behind the gate is refused for lack of
access. -/

namespace Criteria

/-! ## Codes -/

theorem Code.status_eq_forbidden_iff {c : Code} : c.status = 403 ↔ c = .accessDenied := by
  cases c <;> simp [Code.status]

theorem Code.status_of_ne {c : Code} (h : c ≠ .accessDenied) : c.status = 400 := by
  cases c with
  | accessDenied => exact absurd rfl h
  | _ => rfl

theorem Report.code_unknownProperty (entity property : String) (available : List String) :
    (Report.unknownProperty entity property available).code = .unknownProperty := by
  unfold Report.unknownProperty
  dsimp only
  split <;> rfl

/-- A criterion that cannot be compiled is never refused for lack of access. -/
theorem Criterion.code_of_filter_error {c : Criterion} {s : Schema} {r : Report}
    (h : c.filter s = .error r) : r.code ≠ .accessDenied := by
  cases filter_eq_error_iff.1 h with
  | property hfield => simp [Report.code_unknownProperty]
  | value | operator | order => exact Code.noConfusion

/-- Nor is a list of criteria. -/
theorem code_of_compile_error {env : Environment} {s : Schema} {cs : List Criterion} {r : Report}
    (h : (compile env s cs).outcome = .error r) : r.code ≠ .accessDenied := by
  obtain ⟨i, r', ⟨⟨c, -, hr'⟩, -⟩, rfl⟩ := compile_error_iff.1 h
  show r'.code ≠ .accessDenied
  exact Criterion.code_of_filter_error hr'

/-! ## Answers -/

variable {ρ : Type}

/-- The answers to one request, one for each view, disclose in their failures nothing but whether
the principal is allowed to make requests and what is wrong with this one. -/
structure Discreet {α : Type} (allowed : Bool) (denial : Report)
    (answer : View ρ → Except Report α) : Prop where
  /-- A failure is the same for every view. -/
  sameFailure : ∀ (view other : View ρ) (r : Report),
    answer view = .error r ↔ answer other = .error r
  /-- A denial is the answer for every view. -/
  denied : allowed = false → ∀ view, answer view = .error denial
  /-- The status of a denial is given to nothing else. -/
  forbidden : ∀ view, (∃ r, answer view = .error r ∧ r.code.status = 403) ↔ allowed = false
  status : ∀ view r, answer view = .error r → r.code.status = 403 ∨ r.code.status = 400

/-- Answers are discreet if a denial comes first, and the request is checked next without the view,
which only takes part once nothing can fail any more. -/
theorem Discreet.of_check {α β : Type} {allowed : Bool} {denial : Report}
    {answer : View ρ → Except Report α} {check : Except Report β} {finish : View ρ → β → α}
    (hdenial : denial.code = .accessDenied)
    (hcheck : ∀ r, check = .error r → r.code ≠ .accessDenied)
    (hanswer : ∀ view, answer view = if allowed then check.map (finish view) else .error denial) :
    Discreet allowed denial answer := by
  cases allowed with
  | false =>
      have hall : ∀ view, answer view = .error denial := fun view => by simp [hanswer view]
      have hstatus : denial.code.status = 403 := Code.status_eq_forbidden_iff.2 hdenial
      refine ⟨fun view other r => by rw [hall, hall], fun _ => hall, ?_, ?_⟩
      · intro view
        exact ⟨fun _ => rfl, fun _ => ⟨denial, hall view, hstatus⟩⟩
      · intro view r hr
        rw [hall] at hr
        cases hr
        exact Or.inl hstatus
  | true =>
      have herror : ∀ view r, answer view = .error r ↔ check = .error r := by
        intro view r
        rw [hanswer, if_pos rfl]
        cases check <;> simp [Except.map]
      refine ⟨fun view other r => by rw [herror, herror], fun h => absurd h (by decide), ?_, ?_⟩
      · intro view
        refine ⟨?_, fun h => absurd h (by decide)⟩
        rintro ⟨r, hr, hstatus⟩
        exact absurd (Code.status_eq_forbidden_iff.1 hstatus) (hcheck r ((herror view r).1 hr))
      · intro view r hr
        exact Or.inr (Code.status_of_ne (hcheck r ((herror view r).1 hr)))

/-! ## Endpoints -/

namespace Endpoint

variable (env : Environment) (point : Endpoint) (e : Entity ρ) (who : Principal)

theorem code_of_checkPayload_error {s : Schema} {payload : Option String} {r : Report}
    (h : checkPayload env point s payload = .error r) : r.code ≠ .accessDenied := by
  rcases bind_eq_error_iff.1 h with hdecode | ⟨cs, -, hfilter⟩
  · simp [Limits.code_of_decode_error hdecode]
  · have hcompile : (compile env s cs).outcome = .error r := by
      cases hf : (compile env s cs).outcome with
      | error r' =>
          rw [hf] at hfilter
          cases hfilter
          rfl
      | ok f =>
          rw [hf] at hfilter
          cases hfilter
    exact code_of_compile_error hcompile

/-- **Failures disclose nothing.** Whatever is asked of an endpoint, it fails on one view if and only
if it fails on any other, with the same report; it denies all requests of a principal in the same
way, and only a denial has the status of one. -/
theorem failures_disclose_nothing :
    (∀ payload, Discreet (point.gate who e.name .read) (.accessDenied e.name "Read")
      fun view : View ρ => (point.findMany env e who view payload).outcome) ∧
    ∀ id, Discreet (point.gate who e.name .read) (.accessDenied e.name "Read")
      fun view : View ρ => (point.findById env e who view id).outcome := by
  constructor
  · intro payload
    exact Discreet.of_check rfl (fun r => code_of_checkPayload_error env point)
      fun view => outcome_findMany_eq env point e who view payload
  · intro id
    exact Discreet.of_check rfl (fun r => Criterion.code_of_filter_error)
      fun view => outcome_findById_eq env point e who view id

end Endpoint

end Criteria
