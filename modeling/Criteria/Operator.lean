import Criteria.Text.Ascii
import Criteria.Value

set_option autoImplicit false

/-! # Comparison operators

Six comparisons, each with a word and a symbol by which clients name it. An operator compares the
value of a field with a constant and treats null like any other value of its own: null equals null
alone, and no ordering holds for it. -/

namespace Criteria

/-- A comparison. -/
inductive Operator where
  | equal
  | notEqual
  | greater
  | greaterOrEqual
  | less
  | lessOrEqual
deriving DecidableEq, Inhabited

namespace Operator

/-- The tokens of the operators. -/
def tokens : List (String × Operator) :=
  [("equals", .equal), ("=", .equal),
   ("notequals", .notEqual), ("!=", .notEqual),
   ("greaterthan", .greater), (">", .greater),
   ("greaterthanorequal", .greaterOrEqual), (">=", .greaterOrEqual),
   ("lessthan", .less), ("<", .less),
   ("lessthanorequal", .lessOrEqual), ("<=", .lessOrEqual)]

/-- The operator of a token, in any case but without blanks around it. -/
def ofToken? (token : String) : Option Operator :=
  (tokens.find? fun entry => Text.sameLetters entry.1 token).map (·.2)

/-- The operator asks about the order of values and not only about their equality. -/
def isOrdering : Operator → Bool
  | .equal | .notEqual => false
  | _ => true

/-- The symbol of an operator. -/
def symbol : Operator → String
  | .equal => "="
  | .notEqual => "!="
  | .greater => ">"
  | .greaterOrEqual => ">="
  | .less => "<"
  | .lessOrEqual => "<="

/-- Two values are equal to a filter: both are null, or they compare as equal. -/
def sameValue (actual expected : Value) : Bool :=
  match actual, expected with
  | .null, .null => true
  | .null, _ => false
  | _, .null => false
  | a, b => a.compare b == some .eq

/-- The comparison of a value with a constant holds. -/
def holds (op : Operator) (actual expected : Value) : Bool :=
  match op with
  | .equal => sameValue actual expected
  | .notEqual => !sameValue actual expected
  | .greater => (actual.compare expected).any Ordering.isGT
  | .greaterOrEqual => (actual.compare expected).any Ordering.isGE
  | .less => (actual.compare expected).any Ordering.isLT
  | .lessOrEqual => (actual.compare expected).any Ordering.isLE

theorem ofToken?_symbol (op : Operator) : ofToken? op.symbol = some op := by
  cases op <;> decide

end Operator

end Criteria
