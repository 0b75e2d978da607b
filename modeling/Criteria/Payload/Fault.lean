import Criteria.Number.Binary64.Text
import Criteria.Text.Quoted

set_option autoImplicit false

/-! # Faults of a payload

A payload that cannot be read is answered with the first fault and its place. A reader stops with
the cause, the characters it has not consumed and how many bytes of them count as read; the place
follows from these and the whole text. Lines count from one; the column is the number of bytes since
the last line break. -/

namespace Criteria.Payload

open Number

/-! ## Causes -/

/-- A value of a type that is not expected, as a message names it. -/
inductive Found where
  | null
  | bool (b : Bool)
  | int (i : Int)
  | float (x : Binary64)
  | text (s : String)
  | sequence
  | map
deriving DecidableEq

/-- What a message says was found. -/
def Found.message : Found → String
  | .null => "null"
  | .bool b => "boolean `" ++ (if b then "true" else "false") ++ "`"
  | .int i => "integer `" ++ String.ofList (intDigits i) ++ "`"
  | .float x => "floating point `" ++ Binary64.jsonText x ++ "`"
  | .text s => "string " ++ Text.quoted s
  | .sequence => "sequence"
  | .map => "map"

/-- What a message says was expected. -/
inductive Expected where
  /-- The list of criteria. -/
  | sequence
  /-- One criterion. -/
  | criterion
  /-- A property or an operator. -/
  | text
deriving DecidableEq

/-- The text of what was expected. -/
def Expected.message : Expected → String
  | .sequence => "a sequence"
  | .criterion => "struct FilterCriterion"
  | .text => "a string"

/-- The parts of a criterion. -/
inductive Member where
  | property
  | operator
  | value
deriving DecidableEq

/-- The name that messages and written criteria use. -/
def Member.name : Member → String
  | .property => "Property"
  | .operator => "Operator"
  | .value => "Value"

/-- All names by which a part may be sent. -/
def Member.spellings : Member → List String
  | .property => ["Property", "PropertyName", "property", "propertyName"]
  | .operator => ["Operator", "operator"]
  | .value => ["Value", "value"]

/-- The part that a key names; no other key means anything. -/
def Member.ofKey? (key : String) : Option Member :=
  [Member.property, .operator, .value].find? fun m => m.spellings.contains key

/-- Why a payload cannot be read. -/
inductive Cause where
  | endInList
  | endInObject
  | endInText
  | endInValue
  | expectedColon
  | expectedListCommaOrEnd
  | expectedObjectCommaOrEnd
  | expectedWord
  | expectedValue
  | invalidEscape
  | invalidNumber
  | numberOutOfRange
  | controlCharacter
  | keyNotText
  | loneSurrogate
  | endOfHexEscape
  | trailingComma
  | trailingCharacters
  | tooDeep
  | invalidType (found : Found) (expected : Expected)
  | duplicateMember (member : Member)
  | missingMember (member : Member)
  | invalidLength (length : Nat)
  | unmatchedValue
deriving DecidableEq

/-- The text of a cause. -/
def Cause.message : Cause → String
  | .endInList => "EOF while parsing a list"
  | .endInObject => "EOF while parsing an object"
  | .endInText => "EOF while parsing a string"
  | .endInValue => "EOF while parsing a value"
  | .expectedColon => "expected `:`"
  | .expectedListCommaOrEnd => "expected `,` or `]`"
  | .expectedObjectCommaOrEnd => "expected `,` or `\x7d`"
  | .expectedWord => "expected ident"
  | .expectedValue => "expected value"
  | .invalidEscape => "invalid escape"
  | .invalidNumber => "invalid number"
  | .numberOutOfRange => "number out of range"
  | .controlCharacter => "control character (\\u0000-\\u001F) found while parsing a string"
  | .keyNotText => "key must be a string"
  | .loneSurrogate => "lone leading surrogate in hex escape"
  | .endOfHexEscape => "unexpected end of hex escape"
  | .trailingComma => "trailing comma"
  | .trailingCharacters => "trailing characters"
  | .tooDeep => "recursion limit exceeded"
  | .invalidType found expected =>
      "invalid type: " ++ found.message ++ ", expected " ++ expected.message
  | .duplicateMember m => "duplicate field `" ++ m.name ++ "`"
  | .missingMember m => "missing field `" ++ m.name ++ "`"
  | .invalidLength n =>
      "invalid length " ++ String.ofList (natDigits n)
        ++ ", expected struct FilterCriterion with 3 elements"
  | .unmatchedValue => "data did not match any variant of untagged enum CriterionValue"

/-! ## Places -/

/-- The number of bytes that characters take in UTF-8. -/
def byteLength (cs : List Char) : Nat := cs.foldr (fun c n => c.utf8Size + n) 0

/-- A reader stopped: the cause, what it has not consumed, and how many bytes of that it saw. -/
structure Stop where
  cause : Cause
  rest : List Char
  ahead : Nat
deriving DecidableEq

/-- A fault with its place in the text. -/
structure Fault where
  cause : Cause
  line : Nat
  column : Nat
deriving DecidableEq

/-- The line of a place and the number of bytes since its last line break, `offset` bytes on from
the given line and column. -/
def lineAndColumn (line column offset : Nat) : List Char → Nat × Nat
  | [] => (line, column)
  | c :: cs =>
      if offset = 0 then (line, column)
      else if c = '\n' then lineAndColumn (line + 1) 0 (offset - 1) cs
      else if c.utf8Size ≤ offset then
        lineAndColumn line (column + c.utf8Size) (offset - c.utf8Size) cs
      else (line, column + offset)

/-- The place at which a reader of the whole text stopped. -/
def Stop.fault (stop : Stop) (text : List Char) : Fault :=
  let left := byteLength stop.rest
  let (line, column) := lineAndColumn 1 0 (byteLength text - left + min stop.ahead left) text
  ⟨stop.cause, line, column⟩

/-- The text of a fault. -/
def Fault.message (f : Fault) : String :=
  f.cause.message ++ " at line " ++ String.ofList (natDigits f.line)
    ++ " column " ++ String.ofList (natDigits f.column)

end Criteria.Payload
