import Criteria.Access
import Mathlib.Tactic.Tauto

set_option autoImplicit false

/-! # What grants allow

Grants are held by tenant, role and entity, and a further one changes one entry of one inner table
(`Grants.holds_grant`). So after any calls a role holds exactly what some call granted it by these
very names (`Grants.holds_after`), and a principal is allowed what one of its roles holds in its own
tenant. Nothing else about the calls or the principal counts (`Grants.gate_after`). -/

namespace Criteria

namespace Grants

/-! ## What a role holds -/

/-- A role of a tenant holds an entitlement on an entity. -/
def holds (g : Grants) (tenant role entity : String) (e : Entitlement) : Bool :=
  (((g.tenants.get? tenant).bind (Table.get? · role)).bind (Table.get? · entity)).any (·.contains e)

@[simp] theorem holds_empty (tenant role entity : String) (e : Entitlement) :
    holds {} tenant role entity e = false := rfl

theorem gate_eq_any (g : Grants) (p : Principal) (entity : String) (e : Entitlement) :
    g.gate p entity e = p.roles.any fun role => g.holds p.tenant role entity e := by
  unfold gate holds
  cases g.tenants.get? p.tenant with
  | none => simp
  | some roles => rfl

/-- One grant adds one entitlement, in one place. -/
theorem holds_grant (g : Grants) (tenant role entity : String) (e : Entitlement)
    (tenant' role' entity' : String) (e' : Entitlement) :
    (g.grant tenant role entity e).holds tenant' role' entity' e' = true ↔
      (tenant' = tenant ∧ role' = role ∧ entity' = entity ∧ e' = e) ∨
        g.holds tenant' role' entity' e' = true := by
  simp only [holds, grant, Table.get?_change]
  by_cases htenant : tenant' = tenant
  · subst htenant
    rw [if_pos rfl, Option.bind_some, Table.get?_change]
    by_cases hrole : role' = role
    · subst hrole
      rw [if_pos rfl, Option.bind_some, Table.get?_change]
      by_cases hentity : entity' = entity
      · subst hentity
        rw [if_pos rfl]
        -- the entry that is changed is the one that was held before, or the empty one
        cases g.tenants.get? tenant' with
        | none => simp
        | some roles =>
            cases hroles : Table.get? roles role' with
            | none => simp [hroles]
            | some entities =>
                cases hentities : Table.get? entities entity' with
                | none => simp [hroles, hentities]
                | some held => simp [hroles, hentities, List.mem_insert_iff]
      · cases g.tenants.get? tenant' with
        | none => simp [hentity]
        | some roles => cases hroles : Table.get? roles role' <;> simp [hentity, hroles]
    · cases g.tenants.get? tenant' with
      | none => simp [hrole]
      | some roles => simp [hrole]
  · simp [htenant]

/-- A grant of each entitlement adds all of them. -/
theorem holds_grantAll (g : Grants) (tenant role entity : String)
    (tenant' role' entity' : String) (e' : Entitlement) :
    (g.grantAll tenant role entity).holds tenant' role' entity' e' = true ↔
      (tenant' = tenant ∧ role' = role ∧ entity' = entity) ∨
        g.holds tenant' role' entity' e' = true := by
  have hfold : ∀ (es : List Entitlement) (g : Grants),
      (es.foldl (fun g e => g.grant tenant role entity e) g).holds tenant' role' entity' e' = true ↔
        (tenant' = tenant ∧ role' = role ∧ entity' = entity ∧ e' ∈ es) ∨
          g.holds tenant' role' entity' e' = true := by
    intro es
    induction es with
    | nil => simp
    | cons e es ih =>
        intro g
        rw [List.foldl_cons, ih, holds_grant, List.mem_cons]
        tauto
  rw [grantAll, hfold]
  simp [Entitlement.mem_all]

/-! ## Calls -/

/-- A call that adds grants. -/
inductive Call where
  | grant (tenant role entity : String) (e : Entitlement)
  | grantAll (tenant role entity : String)

/-- The grants after one more call. -/
def step (g : Grants) : Call → Grants
  | .grant tenant role entity e => g.grant tenant role entity e
  | .grantAll tenant role entity => g.grantAll tenant role entity

/-- The grants that calls make, in order, from none. -/
def after (calls : List Call) : Grants := calls.foldl step {}

/-- The tenant that a call grants something in. -/
def Call.tenant : Call → String
  | .grant tenant .. => tenant
  | .grantAll tenant .. => tenant

/-- A call grants an entitlement to a role: this one, or each of them. -/
inductive Call.Confers : Call → (tenant role entity : String) → Entitlement → Prop where
  | grant (tenant role entity : String) (e : Entitlement) :
      Confers (.grant tenant role entity e) tenant role entity e
  | grantAll (tenant role entity : String) (e : Entitlement) :
      Confers (.grantAll tenant role entity) tenant role entity e

variable {tenant role entity : String} {e : Entitlement}

theorem Call.Confers.tenant_eq {c : Call} (h : c.Confers tenant role entity e) :
    c.tenant = tenant := by
  cases h <;> rfl

/-- What one call adds. -/
theorem holds_step (g : Grants) (c : Call) :
    (g.step c).holds tenant role entity e = true ↔
      c.Confers tenant role entity e ∨ g.holds tenant role entity e = true := by
  cases c with
  | grant tenant' role' entity' e' =>
      rw [step, holds_grant]
      refine or_congr ⟨?_, ?_⟩ Iff.rfl
      · rintro ⟨rfl, rfl, rfl, rfl⟩
        exact .grant _ _ _ _
      · intro h
        cases h
        exact ⟨rfl, rfl, rfl, rfl⟩
  | grantAll tenant' role' entity' =>
      rw [step, holds_grantAll]
      refine or_congr ⟨?_, ?_⟩ Iff.rfl
      · rintro ⟨rfl, rfl, rfl⟩
        exact .grantAll _ _ _ _
      · intro h
        cases h
        exact ⟨rfl, rfl, rfl⟩

/-- A role holds what some call granted it, and nothing else. -/
theorem holds_after (calls : List Call) :
    (after calls).holds tenant role entity e = true ↔
      ∃ c ∈ calls, c.Confers tenant role entity e := by
  have hrun : ∀ g : Grants, (calls.foldl step g).holds tenant role entity e = true ↔
      (∃ c ∈ calls, c.Confers tenant role entity e) ∨ g.holds tenant role entity e = true := by
    induction calls with
    | nil => simp
    | cons c calls ih =>
        intro g
        simp only [List.foldl_cons, ih, holds_step, List.mem_cons, exists_eq_or_imp]
        exact or_left_comm.trans or_assoc.symm
  rw [after, hrun, holds_empty]
  simp

/-- A principal is allowed what one of its roles was granted in its tenant. -/
theorem gate_after_iff (calls : List Call) (p : Principal) :
    (after calls).gate p entity e = true ↔
      ∃ role ∈ p.roles, ∃ c ∈ calls, c.Confers p.tenant role entity e := by
  rw [gate_eq_any, List.any_eq_true]
  simp only [holds_after]

/-- **What grants allow.** A principal is allowed exactly what some call granted to one of its roles
in its tenant. So neither the order nor the repetition of calls and of roles counts, nor the name of
the user; further calls revoke nothing; and calls for other tenants may be left out. -/
theorem gate_after (calls : List Call) (p : Principal) (entity : String) (e : Entitlement) :
    ((after calls).gate p entity e = true ↔
      ∃ role ∈ p.roles, ∃ c ∈ calls, c.Confers p.tenant role entity e) ∧
    (∀ (calls' : List Call) (p' : Principal), (∀ c, c ∈ calls' ↔ c ∈ calls) →
      p'.tenant = p.tenant → (∀ role, role ∈ p'.roles ↔ role ∈ p.roles) →
        (after calls').gate p' entity e = (after calls).gate p entity e) ∧
    (∀ calls' : List Call, (∀ c ∈ calls, c ∈ calls') →
      (after calls).gate p entity e = true → (after calls').gate p entity e = true) ∧
    (after (calls.filter (·.tenant = p.tenant))).gate p entity e =
      (after calls).gate p entity e := by
  refine ⟨gate_after_iff calls p, ?_, ?_, ?_⟩
  · intro calls' p' hcalls htenant hroles
    rw [Bool.eq_iff_iff, gate_after_iff, gate_after_iff, htenant]
    simp only [hcalls, hroles]
  · intro calls' hcalls hallowed
    obtain ⟨role, hrole, c, hc, hconfers⟩ := (gate_after_iff calls p).1 hallowed
    exact (gate_after_iff calls' p).2 ⟨role, hrole, c, hcalls c hc, hconfers⟩
  · rw [Bool.eq_iff_iff, gate_after_iff, gate_after_iff]
    constructor
    · rintro ⟨role, hrole, c, hc, hconfers⟩
      exact ⟨role, hrole, c, (List.mem_filter.1 hc).1, hconfers⟩
    · rintro ⟨role, hrole, c, hc, hconfers⟩
      have hkept : c ∈ calls.filter (·.tenant = p.tenant) :=
        List.mem_filter.2 ⟨hc, decide_eq_true hconfers.tenant_eq⟩
      exact ⟨role, hrole, c, hkept, hconfers⟩

end Grants

end Criteria
