set_option autoImplicit false

/-! # Exact decimals

A decimal is a sign, a coefficient of at most 96 bits and the number of its digits after the point,
at most 28. The scale belongs to the value that is written, not to the number: `1.5` and `1.50` are
different decimals that compare equal. Comparison counts in the finest step, `10⁻²⁸`, of which every
decimal is a whole multiple. -/

namespace Criteria.Number

/-- The number `± coefficient · 10 ^ (-scale)`, written with `scale` digits after the point. -/
structure Decimal where
  negative : Bool
  coefficient : Nat
  scale : Nat
  coefficient_lt : coefficient < Nat.pow 2 96
  scale_le : scale ≤ 28
deriving DecidableEq

namespace Decimal

/-- The greatest number of digits after the point. -/
def maxScale : Nat := 28

instance : Inhabited Decimal := ⟨⟨false, 0, 0, by decide, by decide⟩⟩

/-- The decimal with these parts, if they fit. -/
def ofParts? (negative : Bool) (coefficient scale : Nat) : Option Decimal :=
  if h : coefficient < Nat.pow 2 96 ∧ scale ≤ 28 then
    some ⟨negative, coefficient, scale, h.1, h.2⟩
  else none

/-- The decimal with these parts and a sign only if it is not zero, if they fit. -/
def ofUnsignedZero? (negative : Bool) (coefficient scale : Nat) : Option Decimal :=
  ofParts? (negative && coefficient != 0) coefficient scale

/-- A 64-bit integer without digits after the point. -/
def ofWord (w : Int64) : Decimal :=
  (ofParts? (decide (w < 0)) w.toInt.natAbs 0).getD default

/-! ## Order -/

/-- The signed number of steps `10⁻²⁸`. -/
def steps (d : Decimal) : Int :=
  let magnitude := d.coefficient * Nat.pow 10 (maxScale - d.scale)
  if d.negative then -(magnitude : Int) else magnitude

/-- The order of the numbers, whatever their scales. -/
def compare (a b : Decimal) : Ordering := Ord.compare a.steps b.steps

/-- Equality of the numbers, whatever their scales. -/
def equals (a b : Decimal) : Bool := a.steps == b.steps

theorem compare_eq_eq_iff (a b : Decimal) : a.compare b = .eq ↔ a.equals b = true := by
  simp [compare, equals]

end Decimal

end Criteria.Number
