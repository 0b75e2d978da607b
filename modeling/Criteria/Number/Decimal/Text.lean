import Criteria.Number.Decimal
import Criteria.Number.Numeral

set_option autoImplicit false

/-! # Text forms of a decimal

A decimal is written with all the digits of its scale. It is read from digits with at most one
point, where an underscore may follow any digit. Digits after the point that do not fit are rounded
off, half up; digits before it that do not fit are an error. An underscore right behind the last
place of the greatest scale is passed over in a long coefficient, and in a short one it stands for
the digit 0 that is rounded off (`isLong`). A text that is not of this form may carry an exponent
of ten, which moves the point by the same rules. -/

namespace Criteria.Number.Decimal

/-! ## Writing -/

/-- The characters of a decimal. -/
def chars (d : Decimal) : List Char :=
  let ds := padded (d.scale + 1) d.coefficient
  let whole := ds.take (ds.length - d.scale)
  let fraction := ds.drop (ds.length - d.scale)
  (if d.negative then ['-'] else []) ++ whole ++ (if d.scale = 0 then [] else '.' :: fraction)

/-- The text of a decimal. -/
def text (d : Decimal) : String := String.ofList d.chars

/-! ## Reading -/

/-- The coefficient and scale once `digit` is the first that does not fit; of the characters after
it only the form counts. A coefficient that rounds up beyond 96 bits gives up its last digit. -/
def roundOff? (coefficient scale digit : Nat) (rest : List Char) : Option (Nat × Nat) :=
  if !rest.all (fun c => c.isDigit || c == '_') then none
  else if digit < 5 then some (coefficient, scale)
  else if coefficient + 1 < Nat.pow 2 96 then some (coefficient + 1, scale)
  else if scale = 0 then none
  else some ((coefficient + 1 + 4) / 10, scale - 1)

/-- A coefficient is long if the digits before its last one leave no sure room for another within 64
bits: if they reach a tenth of the largest number of 64 bits, less a margin of 255. -/
def isLong (coefficient : Nat) : Bool := (UInt64.size - 1) / 10 - 255 ≤ coefficient / 10

/-- The coefficient and scale that the characters write after those already read, which had a point
iff `point`, and a digit iff `seen`. -/
def readParts? (coefficient scale : Nat) (point seen : Bool) : List Char → Option (Nat × Nat)
  | [] => if seen then some (coefficient, scale) else none
  | c :: cs =>
      if c.isDigit then
        let digit := c.toNat - '0'.toNat
        let next := coefficient * 10 + digit
        -- The scale is bounded before the coefficient: leading zeros count for the scale alone.
        if point && scale == maxScale then roundOff? coefficient scale digit cs
        else if next < Nat.pow 2 96 then
          readParts? next (if point then scale + 1 else scale) point true cs
        else if point then roundOff? coefficient scale digit cs
        else none
      else if c = '.' ∧ point = false then readParts? coefficient scale true seen cs
      else if c = '_' ∧ seen = true then
        if point && scale == maxScale && !isLong coefficient then roundOff? coefficient scale 0 cs
        else readParts? coefficient scale point seen cs
      else none

/-- A decimal without an exponent. -/
def readPlain? (cs : List Char) : Option Decimal :=
  let (negative, body) := takeSign cs
  (readParts? 0 0 false false body).bind fun parts => ofUnsignedZero? negative parts.1 parts.2

/-- The amount of an exponent: an optional plus sign and digits, of 32 bits. -/
def readAmount? (cs : List Char) : Option Nat :=
  let digits := match cs with
    | '+' :: r => r
    | r => r
  (readNat? digits).filter (· < UInt32.size)

/-- The decimal times `10 ^ exponent`: the point moves to the right as far as there are digits after
it, and then the number is multiplied out. -/
def scaleUp? (d : Decimal) (exponent : Nat) : Option Decimal :=
  if exponent ≤ d.scale then ofParts? d.negative d.coefficient (d.scale - exponent)
  else if maxScale < exponent then none
  else ofParts? d.negative (d.coefficient * Nat.pow 10 (exponent - d.scale)) 0

/-- The coefficient without its last `count` digits, at least one, rounded half up. -/
def dropRounded (coefficient count : Nat) : Nat :=
  (coefficient / Nat.pow 10 (count - 1) + 5) / 10

/-- The decimal times `10 ^ (-exponent)`: the point moves to the left, and digits that it moves
beyond the greatest scale are rounded off. -/
def scaleDown? (d : Decimal) (exponent : Nat) : Option Decimal :=
  if maxScale < exponent then none
  else if d.scale + exponent ≤ maxScale then
    ofParts? d.negative d.coefficient (d.scale + exponent)
  else
    ofParts? d.negative (dropRounded d.coefficient (d.scale + exponent - maxScale)) maxScale

/-- A decimal followed by `e` or `E` and an exponent. -/
def readScientific? (cs : List Char) : Option Decimal := do
  let isMark (c : Char) : Bool := c == 'e' || c == 'E'
  let base ← readPlain? (cs.takeWhile (!isMark ·))
  match cs.dropWhile (!isMark ·) with
  | [] => none
  | _ :: '-' :: r => base.scaleDown? (← readAmount? r)
  | _ :: r => base.scaleUp? (← readAmount? r)

/-- A decimal, with or without an exponent. -/
def read? (cs : List Char) : Option Decimal := (readPlain? cs).or (readScientific? cs)

end Criteria.Number.Decimal
