import Criteria.Number.Binary64.Text
import Criteria.Number.Decimal.Text
import Criteria.Number.Word
import Criteria.Text.Quoted
import Criteria.Time.Timestamp
import Criteria.Uuid

set_option autoImplicit false

/-! # Field values

A value is what a field of an entity holds and what a filter compares it with. Two values of one
kind are ordered; null, values of different kinds and not-a-number are not comparable. Decimals
compare as numbers, so their scale does not matter. -/

namespace Criteria

open Number Time

/-- A value of a field. -/
inductive Value where
  | null
  | bool (b : Bool)
  | int (i : Int64)
  | float (x : Binary64)
  | decimal (d : Decimal)
  | text (s : String)
  | timestamp (t : Timestamp)
  | date (d : Date)
  | uuid (u : Uuid)
deriving DecidableEq, Inhabited

namespace Value

/-- The value is null. -/
def isNull : Value → Bool
  | .null => true
  | _ => false

/-- The order of two values of one kind; `none` when they are not comparable. -/
def compare : Value → Value → Option Ordering
  | .bool a, .bool b => some (Ord.compare a b)
  | .int a, .int b => some (Ord.compare a.toInt b.toInt)
  | .float a, .float b => a.compare b
  | .decimal a, .decimal b => some (a.compare b)
  | .text a, .text b => some (Ord.compare a b)
  | .timestamp a, .timestamp b => some (a.compare b)
  | .date a, .date b => some (a.compare b)
  | .uuid a, .uuid b => some (a.compare b)
  | _, _ => none

/-- Equality of values: null equals null, numbers are equal as numbers, and a not-a-number is not
equal to itself. -/
def equals : Value → Value → Bool
  | .null, .null => true
  | .bool a, .bool b => a == b
  | .int a, .int b => a == b
  | .float a, .float b => a.equals b
  | .decimal a, .decimal b => a.equals b
  | .text a, .text b => a == b
  | .timestamp a, .timestamp b => a == b
  | .date a, .date b => a == b
  | .uuid a, .uuid b => a == b
  | _, _ => false

/-- The characters of a value; a text stands in quotes. -/
def chars : Value → List Char
  | .null => "null".toList
  | .bool b => (if b then "true" else "false").toList
  | .int i => wordDigits i
  | .float x => Binary64.Layout.plain.write x
  | .decimal d => d.chars
  | .text s => Text.quoteChars s.toList
  | .timestamp t => t.chars
  | .date d => d.chars
  | .uuid u => u.chars

/-- The text of a value. -/
def render (v : Value) : String := String.ofList v.chars

end Value

end Criteria
