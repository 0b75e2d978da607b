set_option autoImplicit false

/-! # Binary floating point, 64 bits wide

A finite double is a sign and a whole number of *units*, the smallest subnormal `2⁻¹⁰⁷⁴`; the
number of units is `mantissa · 2 ^ shift` with the one pair of parts that the format allows
(`Canonical`). Arithmetic is exact arithmetic on units followed by one rounding to nearest, half to
even (`round`); a result past the largest double is the infinity of its sign. The payload of a
not-a-number is never seen, so there is one `nan`. -/

namespace Criteria.Number

/-- The parts are those of a double: at most 53 bits, and all 53 of them unless the shift is 0. -/
abbrev Canonical (mantissa shift : Nat) : Prop :=
  mantissa < Nat.pow 2 53 ∧ shift ≤ 2045 ∧ (Nat.pow 2 52 ≤ mantissa ∨ shift = 0)

/-- A double. -/
inductive Binary64 where
  /-- The signed number `mantissa · 2 ^ shift` of units `2⁻¹⁰⁷⁴`; zero has a sign as well. -/
  | finite (negative : Bool) (mantissa shift : Nat) (canonical : Canonical mantissa shift)
  /-- An infinity. -/
  | infinite (negative : Bool)
  /-- Not a number. -/
  | nan
deriving DecidableEq

namespace Binary64

/-- The number of units in one. -/
def unitsPerOne : Nat := Nat.pow 2 1074

/-- Zero with a sign. -/
def zero (negative : Bool) : Binary64 := .finite negative 0 0 (by decide)

instance : Inhabited Binary64 := ⟨zero false⟩

/-! ## Rounding -/

/-- The double with these parts; parts outside of the format are past its largest number. -/
def ofParts (negative : Bool) (mantissa shift : Nat) : Binary64 :=
  if h : Canonical mantissa shift then .finite negative mantissa shift h else .infinite negative

/-- The whole number nearest to a quotient, the even one of two that are equally near. -/
def roundDiv (num den : Nat) : Nat :=
  let q := num / den
  let r := num % den
  if 2 * r < den then q
  else if den < 2 * r then q + 1
  else if q % 2 = 0 then q else q + 1

/-- The double nearest to `num / den` units, the even one of two that are equally near. -/
def round (negative : Bool) (num den : Nat) : Binary64 :=
  let shift := (num / den).log2 - 52
  let mantissa := roundDiv num (den * Nat.pow 2 shift)
  if mantissa = Nat.pow 2 53 then ofParts negative (Nat.pow 2 52) (shift + 1)
  else ofParts negative mantissa shift

/-- The double nearest to a natural number. -/
def ofNat (n : Nat) : Binary64 := round false (n * unitsPerOne) 1

/-- The double nearest to an integer; the integer 0 gives the positive zero. -/
def ofInt (i : Int) : Binary64 := round (decide (i < 0)) (i.natAbs * unitsPerOne) 1

/-- The double nearest to `digits · 10 ^ exponent`. Exponents that lead outside of the format for
any digits are answered at once; every other one by exact arithmetic. -/
def ofScientific (negative : Bool) (digits : Nat) (exponent : Int) : Binary64 :=
  let magnitude : Int := (Nat.toDigits 10 digits).length + exponent
  if digits = 0 ∨ magnitude < -330 then zero negative
  else if 310 < magnitude then .infinite negative
  else if 0 ≤ exponent then
    round negative (digits * Nat.pow 10 exponent.toNat * unitsPerOne) 1
  else round negative (digits * unitsPerOne) (Nat.pow 10 (-exponent).toNat)

/-! ## Arithmetic -/

/-- The same number with the other sign. -/
def neg : Binary64 → Binary64
  | .finite n m s h => .finite (!n) m s h
  | .infinite n => .infinite (!n)
  | .nan => .nan

/-- The product, rounded once. -/
def mul : Binary64 → Binary64 → Binary64
  | .finite n₁ m₁ s₁ _, .finite n₂ m₂ s₂ _ =>
      round (n₁ != n₂) (m₁ * m₂ * Nat.pow 2 (s₁ + s₂)) unitsPerOne
  | .finite n₁ m _ _, .infinite n₂ => if m = 0 then .nan else .infinite (n₁ != n₂)
  | .infinite n₁, .finite n₂ m _ _ => if m = 0 then .nan else .infinite (n₁ != n₂)
  | .infinite n₁, .infinite n₂ => .infinite (n₁ != n₂)
  | _, _ => .nan

/-- The quotient, rounded once. -/
def div : Binary64 → Binary64 → Binary64
  | .finite n₁ m₁ s₁ _, .finite n₂ m₂ s₂ _ =>
      if m₂ = 0 then (if m₁ = 0 then .nan else .infinite (n₁ != n₂))
      else round (n₁ != n₂) (m₁ * Nat.pow 2 s₁ * unitsPerOne) (m₂ * Nat.pow 2 s₂)
  | .finite n₁ _ _ _, .infinite n₂ => zero (n₁ != n₂)
  | .infinite n₁, .finite n₂ _ _ _ => .infinite (n₁ != n₂)
  | _, _ => .nan

/-! ## Order -/

/-- The signed number of units; an infinity stands just past the largest double, and a
not-a-number has no place. -/
def units? : Binary64 → Option Int
  | .finite negative m s _ =>
      let magnitude := m * Nat.pow 2 s
      some (if negative then -(magnitude : Int) else magnitude)
  | .infinite negative =>
      let magnitude := Nat.pow 2 2098
      some (if negative then -(magnitude : Int) else magnitude)
  | .nan => none

/-- The order of two numbers, both zeros being equal; nothing compares with a not-a-number. -/
def compare (a b : Binary64) : Option Ordering := do
  return Ord.compare (← a.units?) (← b.units?)

/-- Equality of numbers: the zeros are equal, and a not-a-number is not equal to itself. -/
def equals (a b : Binary64) : Bool := a.compare b == some .eq

/-- Neither infinite nor a not-a-number. -/
def isFinite : Binary64 → Bool
  | .finite .. => true
  | _ => false

/-- A zero of either sign. -/
def isZero : Binary64 → Bool
  | .finite _ m _ _ => m == 0
  | _ => false

/-- The exact value, if it is an integer. -/
def toInt? : Binary64 → Option Int
  | .finite negative m s _ =>
      let units := m * Nat.pow 2 s
      if units % unitsPerOne = 0 then
        some (if negative then -(units / unitsPerOne : Nat) else (units / unitsPerOne : Nat))
      else none
  | _ => none

end Binary64

end Criteria.Number
