import Criteria.Number.Binary64
import Criteria.Number.Decimal

set_option autoImplicit false

/-! # Doubles as decimals

A finite double `m · 2 ^ e` is a coefficient times a power of five times a power of ten. The power
of five is multiplied into the coefficient, or divided out of it, step by step within 96 bits; then
the power of ten is brought into the range of scales; and digits beyond the precision of a double
are rounded off, half up. The result is close to the double, not always the closest decimal. -/

namespace Criteria.Number.Decimal

/-- A number `coefficient · 10 ^ exponent` on the way to a decimal. -/
structure Scaled where
  coefficient : Nat
  exponent : Int

namespace Scaled

/-- Multiplies by `5 ^ count`: an even coefficient gives a two to the power of ten instead, and one
that would grow past 96 bits is halved. -/
def timesFives : Nat → Scaled → Scaled
  | 0, x => x
  | count + 1, x =>
      if x.coefficient % 2 = 0 then timesFives count ⟨x.coefficient / 2, x.exponent + 1⟩
      else if x.coefficient * 5 < Nat.pow 2 96 then
        timesFives count ⟨x.coefficient * 5, x.exponent⟩
      else timesFives count ⟨x.coefficient / 2, x.exponent + 1⟩

/-- Divides by `5 ^ count`: while there is room the coefficient is doubled and the power of ten
lowered instead; a number that is bound to be too large is refused. -/
def overFives? : Nat → Scaled → Option Scaled
  | 0, x => some x
  | count + 1, x =>
      if x.coefficient < Nat.pow 2 95 then overFives? count ⟨x.coefficient * 2, x.exponent - 1⟩
      else if (count : Int) + 1 < 2 * x.exponent then none
      else overFives? count ⟨x.coefficient / 5, x.exponent⟩

/-- Multiplies `count` tens into the coefficient, within 96 bits. -/
def multiplyOut? : Nat → Nat → Option Nat
  | 0, coefficient => some coefficient
  | count + 1, coefficient =>
      if coefficient * 10 < Nat.pow 2 96 then multiplyOut? count (coefficient * 10) else none

/-- The coefficient without its last digit, rounded half up. -/
def dropDigit (coefficient : Nat) : Nat :=
  if 5 ≤ coefficient % 10 then coefficient / 10 + 1 else coefficient / 10

/-- Drops `count` digits; a number that has none left is zero, with scale 0. -/
def dropDigits : Nat → Scaled → Scaled
  | 0, x => x
  | count + 1, x =>
      if x.coefficient / 10 = 0 then ⟨0, 0⟩
      else dropDigits count ⟨dropDigit x.coefficient, x.exponent + 1⟩

/-- Drops digits after the point, at most `count`, while the coefficient has more than 52 bits. -/
def toPrecision : Nat → Scaled → Scaled
  | 0, x => x
  | count + 1, x =>
      if Nat.pow 2 52 ≤ x.coefficient then
        toPrecision count ⟨dropDigit x.coefficient, x.exponent + 1⟩
      else x

/-- Drops zeros after the point, at most `count`. -/
def dropZeros : Nat → Scaled → Scaled
  | 0, x => x
  | count + 1, x =>
      if x.coefficient % 10 = 0 then dropZeros count ⟨x.coefficient / 10, x.exponent + 1⟩
      else x

/-- Brings the power of ten, which is not positive, into the range of scales, and rounds off the
digits beyond the precision of a double. -/
def settled (x : Scaled) : Scaled :=
  let x := dropDigits (-x.exponent - maxScale).toNat x
  let x := toPrecision (-x.exponent).toNat x
  dropZeros (-x.exponent).toNat x

/-- The decimal of a number, if it is not too large. -/
def toDecimal? (negative : Bool) (x : Scaled) : Option Decimal := do
  let coefficient ← multiplyOut? x.exponent.toNat x.coefficient
  let x := settled ⟨coefficient, min x.exponent 0⟩
  ofParts? negative x.coefficient (-x.exponent).toNat

/-- The number `mantissa · 2 ^ exponent`, unless it is bound to be too large. -/
def ofPowerOfTwo? (mantissa : Nat) (exponent : Int) : Option Scaled :=
  if exponent ≤ 0 then some (timesFives (-exponent).toNat ⟨mantissa, exponent⟩)
  else overFives? exponent.toNat ⟨mantissa, exponent⟩

end Scaled

/-- The decimal of a finite double, if it is not too large. A zero keeps its sign. -/
def ofBinary64? : Binary64 → Option Decimal
  | .finite negative mantissa shift _ =>
      if mantissa = 0 then ofParts? negative 0 0
      else (Scaled.ofPowerOfTwo? mantissa ((shift : Int) - 1074)).bind (Scaled.toDecimal? negative)
  | _ => none

end Criteria.Number.Decimal
