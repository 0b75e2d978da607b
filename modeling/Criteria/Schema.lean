import Criteria.Field
import Criteria.SetupError
import Criteria.Trace
import Criteria.Value

set_option autoImplicit false

/-! # Entities

The schema of an entity is its name, its table of fields and the name of the field that identifies
it. An entity adds how a field of a row is read. The table alone decides which properties a client
may name; a name that is not in it is a plain miss. -/

namespace Criteria

/-- What clients may ask about an entity. -/
structure Schema where
  /-- The name for authorization and reports. -/
  name : String
  fields : List Field
  /-- The field that identifies a row. -/
  idField : String := "Id"
deriving DecidableEq, Inhabited

namespace Schema

/-- The first field of exactly this name. -/
def field? (s : Schema) (name : String) : Option Field := s.fields.find? fun f => f.name == name

/-- The names of the fields, in order. -/
def fieldNames (s : Schema) : List String := s.fields.map (·.name)

/-- The first name that occurred before, if `seen` did. -/
def firstRepeated? (seen : List String) : List String → Option String
  | [] => none
  | name :: names =>
      if seen.contains name then some name else firstRepeated? (name :: seen) names

/-- Whether the names of the fields are distinct and the identifying field is among them. -/
def check (s : Schema) : Except SetupError Unit :=
  match firstRepeated? [] s.fieldNames with
  | some name => .error (.duplicateField s.name name)
  | none =>
      if (s.field? s.idField).isSome then .ok () else .error (.missingId s.name s.idField)

/-- The check, with an event for a table that is in order. -/
def validate (s : Schema) : Traced SetupError Unit := do
  Traced.ofExcept s.check
  Traced.emit (.registryValidated s.name s.fields.length)

end Schema

/-- A schema and how the rows of an entity are read. -/
structure Entity (ρ : Type) extends Schema where
  /-- The value of a field, if the row knows a field of this name. -/
  read : ρ → String → Option Value

/-- The value of a field of a row; a field that the row does not know is null. -/
def Entity.value {ρ : Type} (e : Entity ρ) (row : ρ) (field : String) : Value :=
  (e.read row field).getD .null

end Criteria
