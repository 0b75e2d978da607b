import Criteria.Proofs.Payload.Integer
import Mathlib.Algebra.Order.Field.Basic
import Mathlib.Algebra.Order.Field.Power
import Mathlib.Data.Rat.Cast.Order

set_option autoImplicit false

/-! # Numbers in range

A number has a size: its digits, with the point and the power of ten that are written. The reader
comes to a double near it in one product of doubles, and refuses the number if that product is
infinite. This happens to some numbers between `rangeLimit` and the largest double as well, but to
none below `rangeLimit` (`Numeral.inRange_of_size_lt`). -/

namespace Criteria.Payload

open Number Binary64

/-- The largest double. -/
def largestDouble : Nat := (Nat.pow 2 53 - 1) * Nat.pow 2 971

example : ofNat largestDouble = .finite false (Nat.pow 2 53 - 1) 2045 (by decide) := by
  decide +kernel

/-! ## Products in range -/

theorem scaledUnits_lt {significand power : Nat} (hsignificand : significand < UInt64.size)
    (hpower : power ≤ maxPower) (hlimit : significand * 10 ^ power < rangeLimit) :
    scaledUnits significand power < unitsLimit := by
  rcases Nat.lt_or_ge power 289 with hsmall | hlarge
  · have hlast : scaledUnits UInt64.size 288 < unitsLimit := by decide +kernel
    have hmono := scaledUnits_mono (Nat.le_of_lt hsignificand) (Nat.le_of_lt_succ hsmall)
    exact Nat.lt_of_le_of_lt hmono hlast
  · -- what is left are twenty powers, each with a greatest significand
    have hlast : ∀ k < 20, scaledUnits ((rangeLimit - 1) / 10 ^ (289 + k)) (289 + k) <
        unitsLimit := by decide +kernel
    obtain ⟨k, rfl⟩ := Nat.exists_eq_add_of_le hlarge
    have hk : k < 20 := by
      rw [maxPower] at hpower
      omega
    have hle : significand ≤ (rangeLimit - 1) / 10 ^ (289 + k) :=
      (Nat.le_div_iff_mul_le (Nat.pow_pos (by decide))).2 (Nat.le_sub_one_of_lt hlimit)
    exact Nat.lt_of_le_of_lt (scaledUnits_mono hle (Nat.le_refl _)) (hlast k hk)

/-- A division never leads past the largest double. -/
theorem scaleByTen?_of_neg (fuel : Nat) (x : Binary64) {exponent : Int} (h : exponent < 0) :
    ∃ y, scaleByTen? fuel x exponent = some y := by
  induction fuel generalizing x exponent with
  | zero => exact ⟨x, rfl⟩
  | succ fuel ih =>
      rw [scaleByTen?]
      split
      · rw [if_neg (by omega)]
        exact ⟨_, rfl⟩
      · next hlarge =>
          rw [maxPower] at hlarge
          split
          · exact ⟨x, rfl⟩
          · rw [if_neg (by omega)]
            exact ih _ (by rw [maxPower]; omega)

variable (negative : Bool) {significand : Nat}

theorem scaled?_of_lt {exponent : Int} (hsignificand : significand < UInt64.size)
    (h : ∀ k : Nat, exponent = k → significand * 10 ^ k < rangeLimit) :
    ∃ x, scaled? negative significand exponent = some x := by
  rcases Int.lt_or_le exponent 0 with hneg | hpos
  · obtain ⟨y, hy⟩ := scaleByTen?_of_neg 4 (ofNat significand) hneg
    exact ⟨_, by rw [scaled?, hy, Option.map_some]⟩
  · obtain ⟨k, rfl⟩ := Int.eq_ofNat_of_zero_le hpos
    have hk := h k rfl
    rcases Nat.lt_or_ge maxPower k with hmax | hmax
    · -- only zero times such a power is in range
      have hlimit : rangeLimit ≤ 10 ^ (maxPower + 1) := by decide +kernel
      have hpow : (10 : Nat) ^ (maxPower + 1) ≤ 10 ^ k := Nat.pow_le_pow_right (by decide) hmax
      have hzero : significand = 0 := by
        by_contra hne
        have hmul := Nat.le_mul_of_pos_left (10 ^ k) (Nat.pos_of_ne_zero hne)
        omega
      have hisZero : (ofNat 0).isZero = true := by decide +kernel
      subst hzero
      rw [scaled?, scaleByTen?, Int.natAbs_natCast, if_neg (Nat.not_le.2 hmax), if_pos hisZero]
      exact ⟨_, rfl⟩
    · rw [scaled?_of_le_maxPower negative hsignificand hmax,
        if_pos (scaledUnits_lt hsignificand hmax hk)]
      exact ⟨_, rfl⟩

/-- The written power of ten. -/
def Power.exponent : Option Power → Int
  | none => 0
  | some p =>
      let size := Nat.ofDigitChars 10 p.digits.chars 0
      if p.sign = ['-'] then -size else size

theorem powered?_of_lt {point : Int} {p : Option Power} (hsignificand : significand < UInt64.size)
    (hwritten : Power.exponent p < 2147483648)
    (h : ∀ k : Nat, point + Power.exponent p = k → significand * 10 ^ k < rangeLimit) :
    ∃ x, powered? negative significand point p = some x := by
  cases p with
  | none => exact scaled?_of_lt negative hsignificand (by simpa [Power.exponent] using h)
  | some p =>
      rw [powered?, scaledBy?]
      by_cases hdown : p.sign = ['-']
      · simp only [Power.exponent, hdown, if_true, ← Int.sub_eq_add_neg] at h
        simp only [hdown, beq_self_eq_true, if_true, Bool.true_eq_false, and_false, if_false]
        split
        · exact scaled?_of_lt negative hsignificand h
        · exact ⟨_, rfl⟩
      · have hbeq : (p.sign == ['-']) = false := by simpa using hdown
        simp only [Power.exponent, hdown, if_false] at h hwritten
        rw [if_pos (by omega), hbeq, if_neg (by decide)]
        exact scaled?_of_lt negative hsignificand h

/-! ## The size of a number -/

theorem mul_pow_le_ofDigitChars (ds : List Char) (n : Nat) :
    n * 10 ^ ds.length ≤ Nat.ofDigitChars 10 ds n := by
  rw [Nat.ofDigitChars_eq_ofDigitChars_zero, Nat.mul_comm]
  exact Nat.le_add_right _ _

theorem takeFitting_mul_pow_le {ds : List Char} (hds : ∀ c ∈ ds, c.isDigit = true) (n : Nat) :
    (takeFitting n ds).1 * 10 ^ (takeFitting n ds).2.length ≤ Nat.ofDigitChars 10 ds n := by
  rw [← ofDigitChars_takeFitting hds n]
  exact mul_pow_le_ofDigitChars _ _

/-- Either no digit fits, or fewer are left. -/
theorem takeFitting_eq_or_shorter (n : Nat) (ds : List Char) :
    takeFitting n ds = (n, ds) ∨ (takeFitting n ds).2.length < ds.length := by
  induction ds generalizing n with
  | nil => exact Or.inl rfl
  | cons d ds ih =>
      rw [takeFitting]
      split
      · dsimp only
        split
        · right
          rcases ih (n * 10 + (d.toNat - '0'.toNat)) with h | h
          · rw [h]
            exact Nat.lt_succ_self _
          · exact Nat.lt_succ_of_lt h
        · exact Or.inl rfl
      · exact Or.inl rfl

/-- The significand is not more than the digits it stands for. Behind a digit in front of the point
that did not fit, digits behind the point may still be taken. -/
theorem significand_mul_pow_le {ds fs : List Char} (hds : ∀ c ∈ ds, c.isDigit = true)
    (hfs : ∀ c ∈ fs, c.isDigit = true) :
    (takeFitting (takeFitting 0 ds).1 fs).1 *
        10 ^ ((takeFitting 0 ds).2.length + (takeFitting (takeFitting 0 ds).1 fs).2.length) ≤
      Nat.ofDigitChars 10 (ds ++ fs) 0 := by
  have hwhole := takeFitting_mul_pow_le hds 0
  rw [Nat.ofDigitChars_append]
  cases hleft : (takeFitting 0 ds).2 with
  | nil =>
      have hvalue := ofDigitChars_takeFitting hds 0
      rw [hleft, Nat.ofDigitChars_nil] at hvalue
      rw [← hvalue, List.length_nil, Nat.zero_add]
      exact takeFitting_mul_pow_le hfs _
  | cons d rest =>
      rw [hleft] at hwhole
      have hdecimals := mul_pow_le_ofDigitChars fs (Nat.ofDigitChars 10 ds 0)
      rcases takeFitting_eq_or_shorter (takeFitting 0 ds).1 fs with hnone | hshorter
      · rw [hnone, Nat.pow_add, ← Nat.mul_assoc]
        exact Nat.le_trans (Nat.mul_le_mul_right _ hwhole) hdecimals
      · have hfits := takeFitting_lt fs (takeFitting_lt ds (show 0 < UInt64.size by decide))
        have hfull := size_mul_pow_le_of_takeFitting hds hleft
        calc (takeFitting (takeFitting 0 ds).1 fs).1 *
              10 ^ ((d :: rest).length + (takeFitting (takeFitting 0 ds).1 fs).2.length)
          _ ≤ UInt64.size * 10 ^ (rest.length + fs.length) :=
              Nat.mul_le_mul (Nat.le_of_lt hfits)
                (Nat.pow_le_pow_right (by decide) (by rw [List.length_cons]; omega))
          _ = UInt64.size * 10 ^ rest.length * 10 ^ fs.length := by
              rw [Nat.pow_add, Nat.mul_assoc]
          _ ≤ Nat.ofDigitChars 10 ds 0 * 10 ^ fs.length := Nat.mul_le_mul_right _ hfull
          _ ≤ Nat.ofDigitChars 10 fs (Nat.ofDigitChars 10 ds 0) := hdecimals

namespace Numeral

/-- The digits behind the point. -/
def decimals (n : Numeral) : List Char :=
  match n.fraction with
  | none => []
  | some f => f.chars

/-- The size of the number that is written. -/
def size (n : Numeral) : ℚ :=
  digitsValue (n.whole.chars ++ n.decimals) *
    10 ^ (Power.exponent n.power - n.decimals.length)

/-- The number stands for one: it does not lead past the largest double. -/
def InRange (n : Numeral) : Prop := ∃ x, n.numeric? = some x

theorem isDigit_decimals (n : Numeral) : ∀ c ∈ n.decimals, c.isDigit = true := by
  unfold decimals
  cases n.fraction with
  | none => simp
  | some f => exact f.isDigit

/-- Sizes are compared in whole numbers. -/
theorem size_lt_iff (n : Numeral) {limit up down : Nat}
    (h : (up : Int) - down = Power.exponent n.power - n.decimals.length) :
    n.size < limit ↔
      digitsValue (n.whole.chars ++ n.decimals) * 10 ^ up < limit * 10 ^ down := by
  have hdown : (0 : ℚ) < 10 ^ down := pow_pos (by norm_num) down
  rw [size, ← h, zpow_sub₀ (by norm_num), zpow_natCast, zpow_natCast, ← mul_div_assoc,
    div_lt_iff₀ hdown]
  norm_cast

theorem size_of_isInteger {n : Numeral} (h : n.IsInteger) : n.size = n.magnitude := by
  simp [size, decimals, h.1, h.2, Power.exponent, magnitude]

/-- All numbers but integers are read with a point and a power of ten. -/
theorem numeric?_of_not_isInteger {n : Numeral} (h : ¬ n.IsInteger) :
    let whole := takeFitting 0 n.whole.chars
    let all := takeFitting whole.1 n.decimals
    n.numeric? = powered? n.negative all.1
      ((whole.2.length : Int) - (n.decimals.length - all.2.length : Nat)) n.power := by
  unfold numeric? decimals
  cases hfraction : n.fraction with
  | some f => rfl
  | none =>
      cases hpower : n.power with
      | none => exact absurd ⟨hfraction, hpower⟩ h
      | some p => simp [takeFitting]

/-- Every number below the limit is in range. -/
theorem inRange_of_size_lt {n : Numeral} (hsize : n.size < rangeLimit)
    (hwritten : Power.exponent n.power < 2147483648) : n.InRange := by
  by_cases hinteger : n.IsInteger
  · rw [size_of_isInteger hinteger, Nat.cast_lt] at hsize
    refine Option.ne_none_iff_exists'.1 fun hnone => ?_
    exact Nat.not_le.2 hsize ((numeric?_eq_none_iff hinteger).1 hnone)
  · rw [InRange, numeric?_of_not_isInteger hinteger]
    have hfits := takeFitting_lt n.decimals
      (takeFitting_lt n.whole.chars (show 0 < UInt64.size by decide))
    have hdigits := significand_mul_pow_le n.whole.isDigit n.isDigit_decimals
    have hleft : (takeFitting (takeFitting 0 n.whole.chars).1 n.decimals).2.length ≤
        n.decimals.length := by
      rcases takeFitting_eq_or_shorter (takeFitting 0 n.whole.chars).1 n.decimals with h | h
      · rw [h]
      · exact Nat.le_of_lt h
    refine powered?_of_lt n.negative hfits hwritten ?_
    intro k hk
    generalize takeFitting (takeFitting 0 n.whole.chars).1 n.decimals = all at *
    generalize (takeFitting 0 n.whole.chars).2.length = dropped at *
    have hlt : digitsValue (n.whole.chars ++ n.decimals) * 10 ^ k <
        rangeLimit * 10 ^ (dropped + all.2.length) := (n.size_lt_iff (by omega)).1 hsize
    have hmul := Nat.mul_le_mul_right (10 ^ k) hdigits
    refine Nat.lt_of_mul_lt_mul_right (a := 10 ^ (dropped + all.2.length)) ?_
    calc all.1 * 10 ^ k * 10 ^ (dropped + all.2.length)
      _ = all.1 * 10 ^ (dropped + all.2.length) * 10 ^ k := Nat.mul_right_comm _ _ _
      _ ≤ digitsValue (n.whole.chars ++ n.decimals) * 10 ^ k := hmul
      _ < rangeLimit * 10 ^ (dropped + all.2.length) := hlt

end Numeral

end Criteria.Payload
