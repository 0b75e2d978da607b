set_option autoImplicit false

/-! # Fields and their kinds

A filterable entity has a table of fields. The kind of a field says which values it holds and which
comparisons make sense for it. -/

namespace Criteria

/-- What a field holds. -/
inductive Kind where
  | int
  | float
  | decimal
  | bool
  | text
  | timestamp
  | date
  | uuid
deriving DecidableEq, Inhabited

namespace Kind

/-- All kinds. -/
def all : List Kind := [.int, .float, .decimal, .bool, .text, .timestamp, .date, .uuid]

/-- The name of a kind. -/
def name : Kind → String
  | .int => "Int"
  | .float => "Float"
  | .decimal => "Decimal"
  | .bool => "Bool"
  | .text => "String"
  | .timestamp => "DateTime"
  | .date => "Date"
  | .uuid => "Uuid"

/-- The kind of a name, which is case-sensitive. -/
def ofName? (s : String) : Option Kind := all.find? fun k => k.name == s

/-- Values of the kind have an order that a filter may ask about. -/
def isOrderable : Kind → Bool
  | .bool | .uuid => false
  | _ => true

theorem mem_all (k : Kind) : k ∈ all := by cases k <;> decide

theorem ofName?_name (k : Kind) : ofName? k.name = some k := by cases k <;> rfl

end Kind

/-- One entry of a field table. -/
structure Field where
  /-- The name as clients spell it, which is case-sensitive. -/
  name : String
  kind : Kind
  /-- The field may hold null. -/
  nullable : Bool := false
deriving DecidableEq, Inhabited

end Criteria
