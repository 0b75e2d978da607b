import Criteria.Endpoint
import Criteria.Proofs.View

set_option autoImplicit false

/-! # Outcomes of the endpoints

Events aside, an endpoint is its gate, then its payload, then its view: a principal that is allowed
gets what reading the payload and applying its criteria come to, and one that is denied gets the
denial. -/

namespace Criteria

namespace Endpoint

variable {ρ : Type} {env : Environment} {point : Endpoint} {who : Principal}

theorem outcome_authorize_of_allowed {s : Schema} {entitlement : Entitlement}
    (h : point.gate who s.name entitlement = true) :
    (authorize env point s who entitlement).outcome = .ok () := by
  rw [authorize, if_pos h, Traced.outcome_pure]

theorem outcome_authorize_of_denied {s : Schema} {entitlement : Entitlement}
    (h : point.gate who s.name entitlement = false) :
    (authorize env point s who entitlement).outcome =
      .error (.accessDenied s.name entitlement.name) := by
  rw [authorize, if_neg (by simp [h]), Traced.outcome_bind]
  rfl

theorem outcome_findMany_of_allowed {e : Entity ρ} (h : point.gate who e.name .read = true)
    (view : View ρ) (payload : Option String) :
    (findMany env point e who view payload).outcome =
      (point.limits.decode payload).outcome.bind fun cs => (view.apply env e cs).outcome := by
  rw [findMany, Traced.outcome_bind, outcome_authorize_of_allowed h]
  show Traced.outcome (_ >>= _) = _
  rw [Traced.outcome_bind]
  rfl

theorem outcome_findMany_of_denied {e : Entity ρ} (h : point.gate who e.name .read = false)
    (view : View ρ) (payload : Option String) :
    (findMany env point e who view payload).outcome = .error (.accessDenied e.name "Read") := by
  rw [findMany, Traced.outcome_bind, outcome_authorize_of_denied h]
  rfl

theorem outcome_findById_of_allowed {e : Entity ρ} (h : point.gate who e.name .read = true)
    (view : View ρ) (id : Literal) :
    (findById env point e who view id).outcome =
      ((Criterion.mk e.idField "=" id).filter e.toSchema).map fun f =>
        (view.narrow e f).first? := by
  rw [findById, Traced.outcome_bind, outcome_authorize_of_allowed h]
  show Traced.outcome (_ >>= _) = _
  rw [Traced.outcome_bind, Traced.outcome_ofExcept]
  rfl

theorem outcome_findById_of_denied {e : Entity ρ} (h : point.gate who e.name .read = false)
    (view : View ρ) (id : Literal) :
    (findById env point e who view id).outcome = .error (.accessDenied e.name "Read") := by
  rw [findById, Traced.outcome_bind, outcome_authorize_of_denied h]
  rfl

/-! ## Checks first, rows last -/

section

variable (env : Environment) (point : Endpoint) (e : Entity ρ) (who : Principal)

/-- What is checked of a payload behind the gate, and what the checks come to: its criteria and
their filter. -/
def checkPayload (s : Schema) (payload : Option String) :
    Except Report (List Criterion × Filter) :=
  (point.limits.decode payload).outcome.bind fun cs =>
    (compile env s cs).outcome.map fun f => (cs, f)

theorem outcome_findMany_eq (view : View ρ) (payload : Option String) :
    (point.findMany env e who view payload).outcome =
      if point.gate who e.name .read then
        (checkPayload env point e.toSchema payload).map fun p =>
          if p.1.isEmpty then view else view.narrow e p.2
      else .error (.accessDenied e.name "Read") := by
  cases hgate : point.gate who e.name .read with
  | false => rw [outcome_findMany_of_denied hgate, if_neg (by simp)]
  | true =>
      rw [outcome_findMany_of_allowed hgate, if_pos rfl, checkPayload]
      cases (point.limits.decode payload).outcome with
      | error r => rfl
      | ok cs =>
          show (view.apply env e cs).outcome =
            ((compile env e.toSchema cs).outcome.map fun f => (cs, f)).map _
          rw [View.outcome_apply_eq]
          cases (compile env e.toSchema cs).outcome <;> rfl

theorem outcome_findById_eq (view : View ρ) (id : Literal) :
    (point.findById env e who view id).outcome =
      if point.gate who e.name .read then
        ((Criterion.mk e.idField "=" id).filter e.toSchema).map fun f => (view.narrow e f).first?
      else .error (.accessDenied e.name "Read") := by
  cases hgate : point.gate who e.name .read with
  | false => rw [outcome_findById_of_denied hgate, if_neg (by simp)]
  | true => rw [outcome_findById_of_allowed hgate, if_pos rfl]

end

end Endpoint

end Criteria
