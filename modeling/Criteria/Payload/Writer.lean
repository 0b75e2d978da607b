import Criteria.Literal
import Criteria.Payload.Fault
import Criteria.Text.Ascii

set_option autoImplicit false

/-! # Writing criteria

Criteria are written as JSON without blanks, in the form that the reader takes: a list of objects
whose keys are the names of the three parts, in order. In a string only the quote, the backslash and
the control characters below the space are escaped. -/

namespace Criteria.Payload

open Number

/-- How one character is written in a string. -/
def writeChar (c : Char) : List Char :=
  if c = '"' then ['\\', '"']
  else if c = '\\' then ['\\', '\\']
  else if c = '\x08' then ['\\', 'b']
  else if c = '\x0c' then ['\\', 'f']
  else if c = '\n' then ['\\', 'n']
  else if c = '\r' then ['\\', 'r']
  else if c = '\t' then ['\\', 't']
  else if c < ' ' then '\\' :: 'u' :: Text.hexDigits 4 c.toNat
  else [c]

/-- A string between its quotes. -/
def writeString (s : String) : List Char := '"' :: s.toList.flatMap writeChar ++ ['"']

/-- A literal; a double that is no number is written as null. -/
def writeLiteral : Literal → List Char
  | .null => "null".toList
  | .bool b => (if b then "true" else "false").toList
  | .int i => wordDigits i
  | .float x => Binary64.Layout.json.write x
  | .text s => writeString s

/-- A key, its colon and its value. -/
def writeEntry (m : Member) (value : List Char) : List Char := writeString m.name ++ ':' :: value

/-- A criterion. -/
def writeCriterion (c : Criterion) : List Char :=
  '\x7b' :: writeEntry .property (writeString c.property)
    ++ ',' :: writeEntry .operator (writeString c.operator)
    ++ ',' :: writeEntry .value (writeLiteral c.value) ++ ['\x7d']

/-- A list of criteria. -/
def writeCriteria (criteria : List Criterion) : List Char :=
  '[' :: ((criteria.map writeCriterion).intersperse [',']).flatten ++ [']']

end Criteria.Payload
