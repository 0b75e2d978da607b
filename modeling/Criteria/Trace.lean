import Criteria.Number.Numeral

set_option autoImplicit false

/-! # Traced computations

Answering a request leaves a trace of events. A traced computation has an outcome and the events
that came before it, in order; running one after another joins the events, and a report ends the
run but keeps them. Nothing in an outcome depends on events. -/

namespace Criteria

/-! ## Events -/

/-- What happened. -/
inductive Event where
  /-- The field table of an entity is in order. -/
  | registryValidated (entity : String) (fields : Nat)
  /-- A payload that is not blank was read. -/
  | payloadDecoded (criteria : Nat)
  /-- A principal asked for the entities that meet criteria. -/
  | filtering (entity user tenant : String) (criteria : Nat)
  /-- The criterion at a position became part of a filter. -/
  | criterionCompiled (entity : String) (index : Nat) (property operator : String)
  /-- A principal lacks an entitlement. -/
  | accessDenied (entity user entitlement : String)
  /-- A filter is about to narrow a view. -/
  | filterApplied (entity : String) (criteria : Nat) (filter : String)
deriving DecidableEq

/-- How much an event matters. -/
inductive Level where
  | trace
  | debug
  | info
deriving DecidableEq

namespace Event

/-- The level of an event. -/
def level : Event → Level
  | .registryValidated .. | .payloadDecoded .. | .criterionCompiled .. => .trace
  | .accessDenied .. | .filterApplied .. => .debug
  | .filtering .. => .info

/-- The sentence of an event. -/
def message : Event → String
  | .registryValidated .. => "entity registry validated"
  | .payloadDecoded .. => "decoded filter payload"
  | .filtering .. => "filtering"
  | .criterionCompiled .. => "criterion compiled"
  | .accessDenied .. => "access denied"
  | .filterApplied .. => "applying compiled filter"

/-- The named details of an event, as texts. -/
def fields : Event → List (String × String)
  | .registryValidated entity fields => [("entity", entity), ("fields", count fields)]
  | .payloadDecoded criteria => [("criteria", count criteria)]
  | .filtering entity user tenant criteria =>
      [("entity", entity), ("user", user), ("tenant", tenant), ("criteria", count criteria)]
  | .criterionCompiled entity index property operator =>
      [("entity", entity), ("index", count index), ("property", property),
       ("operator", operator)]
  | .accessDenied entity user entitlement =>
      [("entity", entity), ("user", user), ("entitlement", entitlement)]
  | .filterApplied entity criteria filter =>
      [("entity", entity), ("criteria", count criteria), ("filter", filter)]
where
  /-- A number as a detail. -/
  count (n : Nat) : String := String.ofList (Number.natDigits n)

end Event

/-! ## Computations -/

/-- An outcome and the events before it. -/
structure Traced (ε α : Type) where
  events : List Event
  outcome : Except ε α

namespace Traced

variable {ε α β : Type}

/-- A result without events. -/
protected def pure (a : α) : Traced ε α := ⟨[], .ok a⟩

/-- One computation after another, unless the first fails. -/
protected def bind (t : Traced ε α) (f : α → Traced ε β) : Traced ε β :=
  match t.outcome with
  | .ok a => ⟨t.events ++ (f a).events, (f a).outcome⟩
  | .error e => ⟨t.events, .error e⟩

instance : Monad (Traced ε) where
  pure := Traced.pure
  bind := Traced.bind

/-- An outcome without events. -/
def ofExcept (outcome : Except ε α) : Traced ε α := ⟨[], outcome⟩

/-- An event, and nothing else. -/
def emit (event : Event) : Traced ε Unit := ⟨[event], .ok ()⟩

/-- An event if the condition holds. -/
def emitIf (condition : Bool) (event : Event) : Traced ε Unit :=
  ⟨if condition then [event] else [], .ok ()⟩

@[simp] theorem outcome_pure (a : α) : (pure a : Traced ε α).outcome = .ok a := rfl

@[simp] theorem events_pure (a : α) : (pure a : Traced ε α).events = [] := rfl

@[simp] theorem outcome_emit (event : Event) : (emit event : Traced ε Unit).outcome = .ok () := rfl

@[simp] theorem outcome_emitIf (condition : Bool) (event : Event) :
    (emitIf condition event : Traced ε Unit).outcome = .ok () := rfl

@[simp] theorem outcome_ofExcept (outcome : Except ε α) :
    (ofExcept outcome : Traced ε α).outcome = outcome := rfl

theorem outcome_bind (t : Traced ε α) (f : α → Traced ε β) :
    (t >>= f).outcome = t.outcome.bind fun a => (f a).outcome := by
  show (Traced.bind t f).outcome = _
  unfold Traced.bind
  cases t.outcome <;> rfl

@[simp] theorem events_emit (event : Event) : (emit event : Traced ε Unit).events = [event] := rfl

@[simp] theorem events_emitIf (condition : Bool) (event : Event) :
    (emitIf condition event : Traced ε Unit).events = if condition then [event] else [] := rfl

@[simp] theorem events_ofExcept (outcome : Except ε α) :
    (ofExcept outcome : Traced ε α).events = [] := rfl

theorem events_bind (t : Traced ε α) (f : α → Traced ε β) :
    (t >>= f).events = t.events ++ match t.outcome with
      | .ok a => (f a).events
      | .error _ => [] := by
  show (Traced.bind t f).events = _
  unfold Traced.bind
  cases t.outcome with
  | ok a => rfl
  | error e => exact (List.append_nil t.events).symm

end Traced

end Criteria
