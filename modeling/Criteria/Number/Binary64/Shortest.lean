import Criteria.Number.Binary64

set_option autoImplicit false

/-! # Shortest decimal digits of a double

The real numbers that round to a double form an interval, its ends included iff the mantissa is
even. Among the decimal grids through the leading digit of the double, from one digit to seventeen,
`shortest` takes the first that has a point in the interval, and of its points there the one nearest
to the double; `Tie` says which of two equally near ones.

All of it is exact arithmetic on natural numbers: a quarter of a unit counts as `1`, so that half
the gap below a power of two is a whole number, and everything is scaled by `10 ^ 400`, below which
no digit of any double is needed. -/

namespace Criteria.Number.Binary64

/-- Which of two equally near grid points is taken. -/
inductive Tie where
  /-- The larger one. -/
  | up
  /-- The one whose last digit is even. -/
  | even
deriving DecidableEq

/-- The positive number `0.d₁d₂… · 10 ^ point`, where `digits` is `d₁d₂…` without trailing
zeros. -/
structure Digits where
  digits : Nat
  point : Int
deriving DecidableEq

/-- The power of ten by which all quantities are scaled. -/
def gridScale : Nat := 400

/-- The lower of the two neighbours of `value / unit` on the grid of multiples of `step`, or the
upper one, if it lies within the interval, which reaches `below` down and `above` up. -/
def nearestWithin? (tie : Tie) (even : Bool) (value step below above : Nat) : Option Nat :=
  let q := value / step
  let down := value % step
  let up := step - down
  let reaches (distance gap : Nat) : Bool := if even then distance ≤ gap else distance < gap
  match reaches down below, reaches up above with
  | true, true =>
      if down < up then some q
      else if up < down then some (q + 1)
      else match tie with
        | .up => some (q + 1)
        | .even => some (if q % 2 = 0 then q else q + 1)
  | true, false => some q
  | false, true => some (q + 1)
  | false, false => none

/-- The number without its trailing decimal zeros; `fuel` bounds their number. -/
def stripZeros : Nat → Nat → Nat
  | 0, n => n
  | fuel + 1, n => if n % 10 = 0 then stripZeros fuel (n / 10) else n

/-- The shortest digits of the positive double with these parts. -/
def shortest (tie : Tie) (mantissa shift : Nat) : Digits :=
  let value := 4 * mantissa * Nat.pow 2 shift * Nat.pow 10 gridScale
  let above := 2 * Nat.pow 2 shift * Nat.pow 10 gridScale
  let below := if mantissa = Nat.pow 2 52 ∧ 0 < shift then above / 2 else above
  let quarter := 4 * unitsPerOne
  let width := (Nat.toDigits 10 (value / quarter)).length
  let found := (List.range 17).findSome? fun i =>
    let step := quarter * Nat.pow 10 (width - (i + 1))
    (nearestWithin? tie (mantissa % 2 == 0) value step below above).map fun c => (i + 1, c)
  match found with
  | none => ⟨0, 0⟩
  | some (count, c) =>
      let length := (Nat.toDigits 10 c).length
      ⟨stripZeros 17 c, (width : Int) - gridScale + (length - count : Nat)⟩

end Criteria.Number.Binary64
