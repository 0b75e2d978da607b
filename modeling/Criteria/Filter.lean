import Criteria.Operator

set_option autoImplicit false

/-! # Filters

A filter is a condition on one row: a comparison of a field with a constant, or several filters of
which all or any have to hold. `always` holds for every row; it is what no criteria compile to, and
joining it to a filter leaves the filter as it is. Joining extends a filter of the same kind on the
left instead of nesting it. -/

namespace Criteria

/-- A condition on a row. -/
inductive Filter where
  /-- No condition. -/
  | always
  /-- A field compares with a constant. -/
  | compare (op : Operator) (field : String) (value : Value)
  /-- All operands hold. -/
  | all (operands : List Filter)
  /-- One of the operands holds. -/
  | any (operands : List Filter)
deriving Inhabited

namespace Filter

/-- The filter is no condition. -/
def isAlways : Filter → Bool
  | .always => true
  | _ => false

/-! ## Joining -/

/-- Both filters hold. -/
def andThen (a b : Filter) : Filter :=
  match a, b with
  | .always, b => b
  | a, .always => a
  | .all operands, b => .all (operands ++ [b])
  | a, b => .all [a, b]

/-- One of the filters holds; no condition is left out. -/
def orElse (a b : Filter) : Filter :=
  match a, b with
  | .always, b => b
  | a, .always => a
  | .any operands, b => .any (operands ++ [b])
  | a, b => .any [a, b]

/-! ## Meaning -/

mutual

/-- The filter holds for a row with these values. -/
def holds (row : String → Value) : Filter → Bool
  | .always => true
  | .compare op field value => op.holds (row field) value
  | .all operands => allHold row operands
  | .any operands => anyHolds row operands

/-- All filters of a list hold. -/
def allHold (row : String → Value) : List Filter → Bool
  | [] => true
  | f :: fs => holds row f && allHold row fs

/-- One filter of a list holds. -/
def anyHolds (row : String → Value) : List Filter → Bool
  | [] => false
  | f :: fs => holds row f || anyHolds row fs

end

/-! ## Size -/

mutual

/-- The number of comparisons. -/
def leafCount : Filter → Nat
  | .always => 0
  | .compare .. => 1
  | .all operands => leafCounts operands
  | .any operands => leafCounts operands

/-- The number of comparisons in a list of filters. -/
def leafCounts : List Filter → Nat
  | [] => 0
  | f :: fs => leafCount f + leafCounts fs

end

/-! ## Equality -/

mutual

/-- The same tree with equal constants; a constant that is not a number differs from itself. -/
def equals : Filter → Filter → Bool
  | .always, .always => true
  | .compare op₁ field₁ value₁, .compare op₂ field₂ value₂ =>
      op₁ == op₂ && field₁ == field₂ && value₁.equals value₂
  | .all fs, .all gs => listEquals fs gs
  | .any fs, .any gs => listEquals fs gs
  | _, _ => false

/-- Equal filters at every place of two lists of one length. -/
def listEquals : List Filter → List Filter → Bool
  | [], [] => true
  | f :: fs, g :: gs => equals f g && listEquals fs gs
  | _, _ => false

end

/-! ## Text -/

mutual

/-- The characters of a filter. -/
def chars : Filter → List Char
  | .always => "TRUE".toList
  | .compare op field value =>
      field.toList ++ ' ' :: op.symbol.toList ++ ' ' :: value.chars
  | .all operands => '(' :: joined " AND ".toList operands ++ [')']
  | .any operands => '(' :: joined " OR ".toList operands ++ [')']

/-- The characters of filters with a separator between them. -/
def joined (separator : List Char) : List Filter → List Char
  | [] => []
  | f :: fs => chars f ++ tail separator fs

/-- The characters of filters with a separator before each. -/
def tail (separator : List Char) : List Filter → List Char
  | [] => []
  | f :: fs => separator ++ chars f ++ tail separator fs

end

/-- The text of a filter. -/
def render (f : Filter) : String := String.ofList f.chars

end Filter

end Criteria
