import Criteria.Proofs.Endpoint

set_option autoImplicit false

/-! # The events of a request

What is logged is settled by four switches: whether debugging is on, whether requests with criteria
are logged, how far compiling got and whether it came to an end. A run of `compileFrom` leaves one
event per criterion up to the first that cannot be compiled (`events_compileFrom`), and the parts of
an endpoint leave theirs in turn (`Endpoint.events_findMany_of_allowed`). An outcome depends on none
of these switches (`Endpoint.outcome_findMany_congr`). -/

namespace Criteria

/-- A line of the log: a level, a sentence and named details. -/
abbrev Line := Level × String × List (String × String)

/-- An event as the log shows it. -/
def Event.line (event : Event) : Line := (event.level, event.message, event.fields)

variable {ρ : Type} {env : Environment} {s : Schema}

/-! ## Compiling -/

theorem outcome_compileFrom_congr (env env' : Environment) (index : Nat)
    (previous : Option String) (combined : Filter) (cs : List Criterion) :
    (compileFrom env s index previous combined cs).outcome =
      (compileFrom env' s index previous combined cs).outcome := by
  induction cs generalizing index previous combined with
  | nil => rfl
  | cons c cs ih =>
      rw [outcome_compileFrom_cons, outcome_compileFrom_cons]
      cases c.filter s with
      | error r => rfl
      | ok one => exact ih _ _ _

/-- The least position of a criterion that cannot be compiled by itself, or the number of criteria
if there is none. -/
def compiledCount (s : Schema) (cs : List Criterion) : Nat :=
  cs.findIdx fun c => (c.filter s).toOption.isNone

theorem compiledCount_cons (c : Criterion) (cs : List Criterion) :
    compiledCount s (c :: cs) = match c.filter s with
      | .ok _ => compiledCount s cs + 1
      | .error _ => 0 := by
  rw [compiledCount, List.findIdx_cons]
  cases c.filter s <;> rfl

theorem compiledCount_of_firstFault {cs : List Criterion} {i : Nat} {r : Report}
    (h : FirstFault s cs i r) : compiledCount s cs = i := by
  induction cs generalizing i with
  | nil =>
      obtain ⟨⟨c, hc, -⟩, -⟩ := h
      cases hc
  | cons c cs ih =>
      rw [compiledCount_cons]
      cases i with
      | zero => rw [firstFault_zero.1 h]
      | succ i =>
          obtain ⟨⟨f, hf⟩, hrest⟩ := firstFault_succ.1 h
          rw [hf, ih hrest]

theorem compiledCount_eq_length {cs : List Criterion} (h : ∀ c ∈ cs, ∃ f, c.filter s = .ok f) :
    compiledCount s cs = cs.length := by
  refine List.findIdx_eq_length_of_false ?_
  intro c hc
  obtain ⟨f, hf⟩ := h c hc
  rw [hf]
  rfl

/-- Every criterion that is compiled leaves its event, if debugging is on. -/
theorem events_compileFrom (index : Nat) (previous : Option String) (combined : Filter)
    (cs : List Criterion) :
    (compileFrom env s index previous combined cs).events =
      if env.debugging then ((cs.take (compiledCount s cs)).zipIdx index).map fun (c, i) =>
        .criterionCompiled s.name i c.property c.operator
      else [] := by
  -- The events of the rest follow the one of the first criterion, a position further.
  induction cs generalizing index previous combined with
  | nil => simp [compileFrom]
  | cons c cs ih =>
      rw [compileFrom, Traced.events_bind, compiledCount_cons]
      cases c.filter s with
      | error r => cases env.debugging <;> rfl
      | ok one =>
          show [] ++ Traced.events (_ >>= _) = _
          rw [Traced.events_bind]
          simp only [Traced.events_emitIf, Traced.outcome_emitIf, ih, List.take_succ_cons,
            List.zipIdx_cons, List.map_cons]
          cases env.debugging <;> rfl

theorem events_compile (cs : List Criterion) :
    (compile env s cs).events =
      if env.debugging then (cs.take (compiledCount s cs)).zipIdx.map fun (c, i) =>
        .criterionCompiled s.name i c.property c.operator
      else [] :=
  events_compileFrom 0 none .always cs

theorem outcome_compile_congr (env env' : Environment) (cs : List Criterion) :
    (compile env s cs).outcome = (compile env' s cs).outcome :=
  outcome_compileFrom_congr env env' 0 none .always cs

/-! ## Applying -/

namespace View

variable {e : Entity ρ} (v : View ρ)

theorem outcome_apply_congr (env env' : Environment) (cs : List Criterion) :
    (v.apply env e cs).outcome = (v.apply env' e cs).outcome := by
  rw [outcome_apply_eq, outcome_apply_eq, outcome_compile_congr env env']

/-- A filter is shown before it narrows a view. -/
theorem events_apply (cs : List Criterion) :
    (v.apply env e cs).events = (compile env e.toSchema cs).events ++
      match (compile env e.toSchema cs).outcome with
      | .ok f => if cs.isEmpty then [] else [.filterApplied e.name cs.length f.render]
      | .error _ => [] := by
  unfold apply
  cases cs with
  | nil => rfl
  | cons c cs =>
      rw [if_neg (by simp), Traced.events_bind]
      cases (compile env e.toSchema (c :: cs)).outcome with
      | error r => rfl
      | ok f => simp [Traced.events_bind]

end View

/-! ## Decoding -/

/-- A payload that is read is counted, unless it is blank. -/
theorem Limits.events_decode (limits : Limits) (payload : Option String) :
    (limits.decode payload).events = match (limits.decode payload).outcome with
      | .ok cs =>
          if (Text.trim ((payload.getD "").toList)).isEmpty then [] else [.payloadDecoded cs.length]
      | .error _ => [] := by
  rw [decode]
  dsimp only
  by_cases hblank : (Text.trim ((payload.getD "").toList)).isEmpty = true
  · rw [if_pos hblank, Traced.outcome_pure, Traced.events_pure]
    exact (if_pos hblank).symm
  · rw [if_neg hblank]
    simp only [if_neg hblank]
    split
    · rfl
    · rw [Traced.events_bind, Traced.outcome_bind, Traced.outcome_ofExcept, Traced.events_ofExcept]
      cases Payload.parse (Text.trim ((payload.getD "").toList)) with
      | error fault => rfl
      | ok cs =>
          have hread (g : Payload.Fault → Report) : (Except.ok cs).mapError g = .ok cs := rfl
          rw [hread]
          dsimp only [Except.bind]
          split <;> rfl

/-! ## Endpoints -/

namespace Endpoint

variable {point : Endpoint} {e : Entity ρ} {who : Principal}

/-- The endpoint that logs requests with criteria, or does not, and is the same otherwise. -/
def withLogFilters (point : Endpoint) (on : Bool) : Endpoint := { point with logFilters := on }

theorem outcome_findMany_congr (env env' : Environment) (on on' : Bool) (view : View ρ)
    (payload : Option String) :
    ((point.withLogFilters on).findMany env e who view payload).outcome =
      ((point.withLogFilters on').findMany env' e who view payload).outcome := by
  have hcheck : checkPayload env (point.withLogFilters on) e.toSchema payload =
      checkPayload env' (point.withLogFilters on') e.toSchema payload := by
    simp only [checkPayload, outcome_compile_congr env env', withLogFilters]
  rw [outcome_findMany_eq, outcome_findMany_eq, hcheck]
  rfl

theorem outcome_findById_congr (env env' : Environment) (on on' : Bool) (view : View ρ)
    (id : Literal) :
    ((point.withLogFilters on).findById env e who view id).outcome =
      ((point.withLogFilters on').findById env' e who view id).outcome := by
  rw [outcome_findById_eq, outcome_findById_eq]
  rfl

theorem events_authorize_of_allowed {entitlement : Entitlement}
    (h : point.gate who s.name entitlement = true) :
    (authorize env point s who entitlement).events = [] := by
  rw [authorize, if_pos h, Traced.events_pure]

theorem events_authorize_of_denied {entitlement : Entitlement}
    (h : point.gate who s.name entitlement = false) :
    (authorize env point s who entitlement).events =
      if env.debugging then [.accessDenied s.name who.user entitlement.name] else [] := by
  rw [authorize, if_neg (by simp [h]), Traced.events_bind]
  exact List.append_nil _

/-- A denial is all that is logged of a request. -/
theorem events_findMany_of_denied (h : point.gate who e.name .read = false) (view : View ρ)
    (payload : Option String) :
    (findMany env point e who view payload).events =
      if env.debugging then [.accessDenied e.name who.user "Read"] else [] := by
  rw [findMany, Traced.events_bind, outcome_authorize_of_denied h, events_authorize_of_denied h]
  exact List.append_nil _

/-- Behind the gate, the payload is logged, then the request, then its criteria. -/
theorem events_findMany_of_allowed (h : point.gate who e.name .read = true) (view : View ρ)
    (payload : Option String) :
    (findMany env point e who view payload).events = (point.limits.decode payload).events ++
      match (point.limits.decode payload).outcome with
      | .ok cs =>
          (if point.logFilters && !cs.isEmpty then
            [.filtering e.name who.user who.tenant cs.length] else []) ++
          (view.apply env e cs).events
      | .error _ => [] := by
  rw [findMany, Traced.events_bind, outcome_authorize_of_allowed h, events_authorize_of_allowed h]
  show [] ++ Traced.events (_ >>= _) = _
  rw [Traced.events_bind]
  cases (point.limits.decode payload).outcome with
  | error r => rfl
  | ok cs =>
      dsimp only
      rw [Traced.events_bind]
      rfl

theorem events_findById_of_denied (h : point.gate who e.name .read = false) (view : View ρ)
    (id : Literal) :
    (findById env point e who view id).events =
      if env.debugging then [.accessDenied e.name who.user "Read"] else [] := by
  rw [findById, Traced.events_bind, outcome_authorize_of_denied h, events_authorize_of_denied h]
  exact List.append_nil _

theorem events_findById_of_allowed (h : point.gate who e.name .read = true) (view : View ρ)
    (id : Literal) : (findById env point e who view id).events = [] := by
  rw [findById, Traced.events_bind, outcome_authorize_of_allowed h, events_authorize_of_allowed h]
  show [] ++ Traced.events (_ >>= _) = _
  rw [Traced.events_bind]
  cases (Criterion.filter ⟨e.idField, "=", id⟩ e.toSchema) <;> rfl

open Event.fields (count) in
/-- The lines of a listing behind the gate whose payload is read as `cs`: the payload, unless it is
blank; the request, if requests with criteria are logged; the criteria up to the first that cannot
be compiled, if debugging is on; and the filter, if there is one. -/
def listingLines (env : Environment) (point : Endpoint) (e : Entity ρ) (who : Principal)
    (payload : Option String) (cs : List Criterion) : List Line :=
  (if (Text.trim ((payload.getD "").toList)).isEmpty then []
    else [(.trace, "decoded filter payload", [("criteria", count cs.length)])]) ++
  (if point.logFilters && !cs.isEmpty then
    [(.info, "filtering", [("entity", e.name), ("user", who.user), ("tenant", who.tenant),
      ("criteria", count cs.length)])]
    else []) ++
  (if env.debugging then (cs.take (compiledCount e.toSchema cs)).zipIdx.map fun (c, i) =>
    (.trace, "criterion compiled", [("entity", e.name), ("index", count i),
      ("property", c.property), ("operator", c.operator)])
    else []) ++
  match (compile env e.toSchema cs).outcome with
  | .ok f =>
      if cs.isEmpty then []
      else [(.debug, "applying compiled filter", [("entity", e.name),
        ("criteria", count cs.length), ("filter", f.render)])]
  | .error _ => []

theorem lines_findMany (h : point.gate who e.name .read = true) (view : View ρ)
    (payload : Option String) {cs : List Criterion}
    (hcs : (point.limits.decode payload).outcome = .ok cs) :
    (findMany env point e who view payload).events.map Event.line =
      listingLines env point e who payload cs := by
  rw [events_findMany_of_allowed h, Limits.events_decode, hcs]
  dsimp only
  rw [View.events_apply, events_compile, listingLines]
  simp only [List.map_append, List.append_assoc, apply_ite (List.map Event.line), List.map_map]
  cases (compile env e.toSchema cs).outcome with
  | error r => rfl
  | ok f =>
      dsimp only
      rw [apply_ite (List.map Event.line)]
      rfl

/-- **Logging changes no result, and what is logged is determined.** Whatever the environment is and
whether or not requests with criteria are logged, compiling, applying, listing and looking up come
to the same. A request that is denied leaves one line if debugging is on and nothing else. Behind
the gate a payload that cannot be read leaves nothing, and one that can leaves the lines of a
listing, in which the criteria count up to the least position of one that cannot be compiled, or to
the end. -/
theorem logging_determined (point : Endpoint) (e : Entity ρ) (who : Principal) (view : View ρ)
    (payload : Option String) :
    (∀ env env' on on' cs id,
      (compile env e.toSchema cs).outcome = (compile env' e.toSchema cs).outcome ∧
      (view.apply env e cs).outcome = (view.apply env' e cs).outcome ∧
      ((point.withLogFilters on).findMany env e who view payload).outcome =
        ((point.withLogFilters on').findMany env' e who view payload).outcome ∧
      ((point.withLogFilters on).findById env e who view id).outcome =
        ((point.withLogFilters on').findById env' e who view id).outcome) ∧
    (point.gate who e.name .read = false → ∀ env,
      (findMany env point e who view payload).events.map Event.line =
        if env.debugging then
          [(.debug, "access denied", [("entity", e.name), ("user", who.user),
            ("entitlement", "Read")])]
        else []) ∧
    (point.gate who e.name .read = true → ∀ env,
      (∀ r, (point.limits.decode payload).outcome = .error r →
        (findMany env point e who view payload).events = []) ∧
      ∀ cs, (point.limits.decode payload).outcome = .ok cs →
        (findMany env point e who view payload).events.map Event.line =
          listingLines env point e who payload cs) ∧
    ∀ cs, (∀ i r, FirstFault e.toSchema cs i r → compiledCount e.toSchema cs = i) ∧
      ((∀ c ∈ cs, ∃ f, c.filter e.toSchema = .ok f) →
        compiledCount e.toSchema cs = cs.length) := by
  refine ⟨?_, ?_, ?_, fun cs => ⟨fun _ _ => compiledCount_of_firstFault, compiledCount_eq_length⟩⟩
  · intro env env' on on' cs id
    exact ⟨outcome_compile_congr env env' cs, view.outcome_apply_congr env env' cs,
      outcome_findMany_congr env env' on on' view payload,
      outcome_findById_congr env env' on on' view id⟩
  · intro hgate env
    rw [events_findMany_of_denied hgate]
    split <;> rfl
  · intro hgate env
    refine ⟨?_, fun cs hcs => lines_findMany hgate view payload hcs⟩
    intro r hr
    rw [events_findMany_of_allowed hgate, Limits.events_decode, hr]
    rfl

end Endpoint

end Criteria
