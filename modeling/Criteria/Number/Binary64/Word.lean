import Criteria.Number.Binary64
import Criteria.Number.Word

set_option autoImplicit false

/-! # Doubles as words

Cutting a double to a whole number keeps to the range of a word: what is past an end becomes the
word at that end (`toWord`). Where a double is taken *as* a word nothing of that kind may happen, so
only a finite whole number is, from the double of the least word on and below the double of the
greatest (`toWord?`). The greatest word is no double; the nearest one is the number behind it, which
is why the second comparison is strict and the first is not. -/

namespace Criteria.Number

/-- The word nearest to an integer. -/
def nearestWord (i : Int) : Int64 :=
  if i < Int64.minValue.toInt then Int64.minValue
  else if Int64.maxValue.toInt < i then Int64.maxValue
  else Int64.ofInt i

namespace Binary64

/-- Less than; nothing is less or greater than a not-a-number. -/
def isLess (a b : Binary64) : Bool := a.compare b == some .lt

/-- Greater than or equal. -/
def isAtLeast (a b : Binary64) : Bool := a.compare b == some .gt || a.compare b == some .eq

/-- Nothing stands behind the point; an infinity has no such part. -/
def isWhole : Binary64 → Bool
  | .finite _ m s _ => m * Nat.pow 2 s % unitsPerOne == 0
  | _ => false

/-- What stands before the point, as the nearest word; 0 for a not-a-number. -/
def toWord : Binary64 → Int64
  | .finite negative m s _ =>
      let whole := m * Nat.pow 2 s / unitsPerOne
      nearestWord (if negative then -(whole : Int) else whole)
  | .infinite negative => if negative then Int64.minValue else Int64.maxValue
  | .nan => 0

/-- The word that a double is, if it is one. -/
def toWord? (x : Binary64) : Option Int64 :=
  if x.isFinite && x.isWhole && x.isAtLeast (ofInt Int64.minValue.toInt)
      && x.isLess (ofInt Int64.maxValue.toInt) then some x.toWord
  else none

end Binary64

end Criteria.Number
