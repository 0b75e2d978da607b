import Criteria.SetupError

set_option autoImplicit false

/-! # Settings

The settings of an endpoint are limits on payloads and whether requests are logged. Named
environments override some of them. Applying an environment uses it up; a result whose limits would
refuse every request is an error, and then the settings stay as they were. -/

namespace Criteria

/-- Limits on a payload. -/
structure Limits where
  /-- The greatest number of criteria. -/
  maxCriteria : Nat := 64
  /-- The greatest number of bytes, without the blanks at both ends. -/
  maxPayloadBytes : Nat := 16 * 1024
deriving DecidableEq, Inhabited

/-- What an environment says about limits. -/
structure LimitOverride where
  maxCriteria : Option Nat := none
  maxPayloadBytes : Option Nat := none
deriving DecidableEq, Inhabited

/-- What an environment says about debugging. -/
structure DebugOverride where
  logFilters : Option Bool := none
deriving DecidableEq, Inhabited

/-- What an environment overrides. -/
structure Override where
  filter : Option LimitOverride := none
  debug : Option DebugOverride := none
deriving DecidableEq, Inhabited

/-- The settings of an endpoint. -/
structure Settings where
  limits : Limits := {}
  /-- Requests with criteria are logged. -/
  logFilters : Bool := false
  /-- The environments that have not been applied, by name. -/
  environments : List (String × Override) := []
deriving DecidableEq, Inhabited

/-- The limits, those that are overridden replaced. -/
def Limits.override (limits : Limits) (o : LimitOverride) : Limits :=
  ⟨o.maxCriteria.getD limits.maxCriteria, o.maxPayloadBytes.getD limits.maxPayloadBytes⟩

namespace Settings

/-- The limits let some request through. -/
def check (s : Settings) : Except SetupError Unit :=
  if s.limits.maxCriteria = 0 then .error (.zeroLimit "filter.max_criteria")
  else if s.limits.maxPayloadBytes = 0 then .error (.zeroLimit "filter.max_payload_bytes")
  else .ok ()

/-- The settings, those that are overridden replaced. -/
def override (s : Settings) (o : Override) : Settings :=
  { s with
    limits := (o.filter.map s.limits.override).getD s.limits
    logFilters := (o.debug.bind (·.logFilters)).getD s.logFilters }

/-- The settings without an environment. -/
def without (s : Settings) (name : String) : Settings :=
  { s with environments := s.environments.filter fun entry => entry.1 != name }

/-- The settings with an environment applied and used up; a name that is not known changes nothing.
The result has to let some request through. -/
def withEnvironment (s : Settings) (name : String) : Except SetupError Settings := do
  let result := match s.environments.lookup name with
    | some o => (s.override o).without name
    | none => s
  result.check
  return result

end Settings

end Criteria
