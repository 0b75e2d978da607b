import Criteria.Field
import Criteria.Literal
import Criteria.Value
import Criteria.Number.Binary64.Word
import Criteria.Number.Decimal.OfBinary64
import Criteria.Text.Blank
import Criteria.Time.Reader

set_option autoImplicit false

/-! # Coercion of literals

A literal is turned into a value of exactly the kind of the field that it is compared with, or it is
refused; there is no kind that is close enough. A text is read after its blanks at both ends are
dropped, except for a text field, which takes it as it is. -/

namespace Criteria

open Number Text

/-- Why a literal is no value of a field. -/
inductive CoercionError where
  /-- The literal is null and the field holds no null. -/
  | nullNotAllowed (kind : Kind)
  /-- The literal does not write a value of the kind. -/
  | mismatch (kind : Kind) (literal : Literal)
deriving DecidableEq

/-- What a client is told. -/
def CoercionError.message : CoercionError → String
  | .nullNotAllowed kind => "null is not allowed for a non-nullable " ++ kind.name ++ " property"
  | .mismatch kind literal => literal.render ++ " is not a valid " ++ kind.name

namespace Literal

/-- A word: itself, a double that is a word, a truth value as 0 or 1, or a numeral. -/
def toWord? : Literal → Option Int64
  | .null => none
  | .bool b => some (if b then 1 else 0)
  | .int i => some i
  | .float x => x.toWord?
  | .text s => readWord? (trim s.toList)

/-- A double: the nearest to a word, itself, a truth value as 0 or 1, or a finite numeral. -/
def toDouble? : Literal → Option Binary64
  | .null => none
  | .bool b => some (Binary64.ofInt (if b then 1 else 0))
  | .int i => some (Binary64.ofInt i.toInt)
  | .float x => some x
  | .text s => (Binary64.read? (trim s.toList)).filter Binary64.isFinite

/-- A decimal: a word, a double that is not too large, a truth value as 0 or 1, or a numeral. -/
def toDecimal? : Literal → Option Decimal
  | .null => none
  | .bool b => some (Decimal.ofWord (if b then 1 else 0))
  | .int i => some (Decimal.ofWord i)
  | .float x => Decimal.ofBinary64? x
  | .text s => Decimal.read? (trim s.toList)

/-- A truth value: itself, whether a number is other than zero, or one of the words `true` and
`false` in any case. -/
def toBool? : Literal → Option Bool
  | .null => none
  | .bool b => some b
  | .int i => some (i != 0)
  | .float x => some (!x.isZero)
  | .text s =>
      let word := trimmed s
      if sameLetters word "true" then some true
      else if sameLetters word "false" then some false
      else none

/-- A text: itself, or the text of any other literal but null. -/
def toText? : Literal → Option String
  | .null => none
  | .text s => some s
  | l => some l.render

/-- A moment, from a text alone. -/
def toTimestamp? : Literal → Option Time.Timestamp
  | .text s => Time.readTimestamp? (trim s.toList)
  | _ => none

/-- A date, from a text alone. -/
def toDate? : Literal → Option Time.Date
  | .text s => Time.readDay? (trim s.toList)
  | _ => none

/-- An identifier, from a text alone. -/
def toUuid? : Literal → Option Uuid
  | .text s => Uuid.read? (trim s.toList)
  | _ => none

/-- The value of a kind that a literal writes. -/
def toKind? (l : Literal) : Kind → Option Value
  | .int => l.toWord?.map .int
  | .float => l.toDouble?.map .float
  | .decimal => l.toDecimal?.map .decimal
  | .bool => l.toBool?.map .bool
  | .text => l.toText?.map .text
  | .timestamp => l.toTimestamp?.map .timestamp
  | .date => l.toDate?.map .date
  | .uuid => l.toUuid?.map .uuid

/-- The value of a field that a literal stands for. Null stands for null where that is allowed. -/
def coerce (l : Literal) (field : Field) : Except CoercionError Value :=
  if l = .null then
    if field.nullable then .ok .null else .error (.nullNotAllowed field.kind)
  else match l.toKind? field.kind with
    | some v => .ok v
    | none => .error (.mismatch field.kind l)

end Literal

end Criteria
