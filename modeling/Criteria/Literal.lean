import Criteria.Number.Binary64.Text
import Criteria.Number.Word
import Criteria.Text.Quoted

set_option autoImplicit false

/-! # Literals

A literal is the constant of a criterion as a client sent it, before it is known which kind of field
it is compared with. -/

namespace Criteria

open Number

/-- A constant as it was sent. -/
inductive Literal where
  | null
  | bool (b : Bool)
  | int (i : Int64)
  | float (x : Binary64)
  | text (s : String)
deriving DecidableEq, Inhabited

namespace Literal

/-- The characters of a literal; a text stands in quotes. -/
def chars : Literal → List Char
  | .null => "null".toList
  | .bool b => (if b then "true" else "false").toList
  | .int i => wordDigits i
  | .float x => Binary64.Layout.plain.write x
  | .text s => Text.quoteChars s.toList

/-- The text of a literal. -/
def render (l : Literal) : String := String.ofList l.chars

end Literal

/-- One condition of a filter request: a property, an operator token and a constant. -/
structure Criterion where
  property : String
  operator : String
  value : Literal
deriving DecidableEq, Inhabited

end Criteria
