import Criteria.Access
import Criteria.Payload.Reader
import Criteria.Settings
import Criteria.Text.Blank
import Criteria.View

set_option autoImplicit false

/-! # Read endpoints

The endpoint of an entity answers requests to list rows and to fetch one. The gate comes first, so a
principal that is denied learns nothing about the request; then the payload is read, within the
limits; then the criteria are compiled and the view is narrowed. -/

namespace Criteria

/-! ## Payloads -/

/-- The criteria of a payload within limits. No payload, or a blank one, has none. The length of the
payload without the blanks around it is checked before it is read, the number of criteria after. -/
def Limits.decode (limits : Limits) (payload : Option String) : Traced Report (List Criterion) := do
  let text := Text.trim ((payload.getD "").toList)
  if text.isEmpty then return []
  else
    let size := Payload.byteLength text
    if limits.maxPayloadBytes < size then
      Traced.ofExcept (.error (.malformedFilter ("payload is " ++ number size ++ " bytes, limit is "
        ++ number limits.maxPayloadBytes)))
    else
      let criteria ← Traced.ofExcept ((Payload.parse text).mapError fun fault =>
        (Report.malformedFilter fault.message).withSource (.payload fault))
      if limits.maxCriteria < criteria.length then
        Traced.ofExcept (.error (.malformedFilter (number criteria.length
          ++ " criteria supplied, limit is " ++ number limits.maxCriteria)))
      else
        Traced.emit (.payloadDecoded criteria.length)
        return criteria
where
  /-- A number in a message. -/
  number (n : Nat) : String := String.ofList (Number.natDigits n)

/-! ## Endpoints -/

/-- What an endpoint asks and how it answers. -/
structure Endpoint where
  gate : Gate
  limits : Limits := {}
  /-- Requests with criteria are logged. -/
  logFilters : Bool := false

namespace Endpoint

/-- An endpoint that follows a configuration. -/
def ofSettings (gate : Gate) (settings : Settings) : Endpoint :=
  ⟨gate, settings.limits, settings.logFilters⟩

variable {ρ : Type}

/-- Asks the gate. -/
def authorize (env : Environment) (point : Endpoint) (s : Schema) (who : Principal)
    (entitlement : Entitlement) : Traced Report Unit := do
  if point.gate who s.name entitlement then return ()
  else
    Traced.emitIf env.debugging (.accessDenied s.name who.user entitlement.name)
    Traced.ofExcept (.error (.accessDenied s.name entitlement.name))

/-- The rows of a view that meet the criteria of a payload. -/
def findMany (env : Environment) (point : Endpoint) (e : Entity ρ) (who : Principal) (view : View ρ)
    (payload : Option String) : Traced Report (View ρ) := do
  authorize env point e.toSchema who .read
  let criteria ← point.limits.decode payload
  Traced.emitIf (point.logFilters && !criteria.isEmpty)
    (.filtering e.name who.user who.tenant criteria.length)
  view.apply env e criteria

/-- The first row of a view whose identifying field equals a literal. -/
def findById (env : Environment) (point : Endpoint) (e : Entity ρ) (who : Principal) (view : View ρ)
    (id : Literal) : Traced Report (Option ρ) := do
  authorize env point e.toSchema who .read
  let filter ← Traced.ofExcept ((Criterion.mk e.idField "=" id).filter e.toSchema)
  return (view.narrow e filter).first?

end Endpoint

end Criteria
