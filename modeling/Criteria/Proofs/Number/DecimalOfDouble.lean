import Criteria.Number.Decimal.OfBinary64
import Criteria.Proofs.Number.Nearest
import Mathlib.Algebra.Order.Ring.Pow
import Mathlib.Tactic.NormNum

set_option autoImplicit false

/-! # Doubles as decimals

A double is multiplied out to a coefficient times a power of ten, and then digits are dropped. What
each stage does to the number is said here once: multiplying out loses a part `fiveLoss` of it at
most per step, and only where the coefficient is full (`timesFives_spec`); dropping digits one by
one leaves a number that is less than five ninths of a step away (`Near`), because the errors of the
steps behind it are tenths of one another.

So every double below `2 ^ 96` becomes a decimal, and no other (`exists_ofBinary64?_iff`). -/

namespace Criteria.Number.Decimal

/-! ## The number of a decimal -/

/-- The number that a decimal is. -/
def toRat (d : Decimal) : ℚ := d.steps / 10 ^ maxScale

/-- A magnitude with its sign. -/
def withSign (negative : Bool) (v : ℚ) : ℚ := if negative then -v else v

theorem toRat_eq (d : Decimal) :
    d.toRat = withSign d.negative (d.coefficient / 10 ^ d.scale) := by
  obtain ⟨k, hk⟩ := Nat.exists_eq_add_of_le d.scale_le
  have hsteps : ((d.coefficient * Nat.pow 10 (maxScale - d.scale) : Nat) : ℚ) / 10 ^ maxScale =
      d.coefficient / 10 ^ d.scale := by
    have hroom : maxScale - d.scale = k := by
      rw [maxScale]
      omega
    have hsplit : (10 : ℚ) ^ maxScale = 10 ^ d.scale * 10 ^ k := by
      rw [maxScale, hk, pow_add]
    rw [hroom, hsplit, Nat.cast_mul]
    simp only [Nat.pow_eq, Nat.cast_pow, Nat.cast_ofNat]
    exact mul_div_mul_right _ _ (by positivity)
  rw [toRat, steps, withSign, ← hsteps]
  split
  · push_cast
    ring
  · push_cast
    rfl

/-- Decimals that are the same number compare equal, whatever their scales. -/
theorem compare_eq_eq_iff_toRat {a b : Decimal} : a.compare b = .eq ↔ a.toRat = b.toRat := by
  rw [compare_eq_eq_iff, equals, beq_iff_eq, toRat, toRat,
    div_left_inj' (by positivity), Int.cast_inj]

namespace Scaled

/-- The number. -/
def value (x : Scaled) : ℚ := x.coefficient * 10 ^ x.exponent

variable {x y z : Scaled} {count : Nat}

/-! ## Multiplying out -/

/-- The part of a number that is lost when a full coefficient is halved. -/
def fiveLoss : ℚ := 5 / 2 ^ 96

theorem value_nonneg (x : Scaled) : 0 ≤ x.value :=
  mul_nonneg (Nat.cast_nonneg _) (zpow_nonneg (by norm_num) _)

/-- Halving a coefficient, with one more power of ten, is multiplying by five. -/
theorem value_half (h : x.coefficient % 2 = 0) :
    value ⟨x.coefficient / 2, x.exponent + 1⟩ = x.value * 5 := by
  have hhalf : ((x.coefficient / 2 : Nat) : ℚ) * 2 = x.coefficient := by
    exact_mod_cast Nat.div_mul_cancel (Nat.dvd_of_mod_eq_zero h)
  rw [value, value, zpow_add_one₀ (by norm_num), ← hhalf]
  ring

theorem value_five : value ⟨x.coefficient * 5, x.exponent⟩ = x.value * 5 := by
  rw [value, value]
  push_cast
  ring

/-- A full coefficient that is odd loses a half. -/
theorem value_half_le (hfull : Nat.pow 2 96 ≤ x.coefficient * 5) :
    value ⟨x.coefficient / 2, x.exponent + 1⟩ ≤ x.value * 5 ∧
      (1 - fiveLoss) * (x.value * 5) ≤ value ⟨x.coefficient / 2, x.exponent + 1⟩ := by
  have hten : (0 : ℚ) < 10 ^ x.exponent := zpow_pos (by norm_num) _
  have hupper : ((x.coefficient / 2 : Nat) : ℚ) * 2 ≤ x.coefficient := by
    exact_mod_cast Nat.div_mul_le_self x.coefficient 2
  have hlower : (x.coefficient : ℚ) ≤ ((x.coefficient / 2 : Nat) : ℚ) * 2 + 1 := by
    have hle : x.coefficient ≤ x.coefficient / 2 * 2 + 1 := by omega
    exact_mod_cast hle
  have hcast : (2 ^ 96 : ℚ) ≤ x.coefficient * 5 := by
    exact_mod_cast hfull
  rw [value, value, zpow_add_one₀ (by norm_num)]
  constructor
  · have hmul := mul_le_mul_of_nonneg_right hupper hten.le
    linarith
  · have hloss : fiveLoss * x.coefficient ≥ 1 := by
      rw [fiveLoss, ge_iff_le, div_mul_eq_mul_div, le_div_iff₀ (by norm_num)]
      linarith
    have hmul := mul_le_mul_of_nonneg_right (show (1 - fiveLoss) * x.coefficient * 5 ≤
      ((x.coefficient / 2 : Nat) : ℚ) * 10 by linarith) hten.le
    linarith

/-- What multiplying out comes to. -/
structure TimesFives (x y : Scaled) (count : Nat) : Prop where
  coefficient_pos : 0 < y.coefficient
  coefficient_lt : y.coefficient < Nat.pow 2 96
  exponent_le : x.exponent ≤ y.exponent
  le_exponent : y.exponent ≤ x.exponent + count
  le_value : (1 - fiveLoss) ^ count * (x.value * 5 ^ count) ≤ y.value
  value_le : y.value ≤ x.value * 5 ^ count

/-- One more step of multiplying out. -/
theorem TimesFives.step {x' : Scaled} (h : TimesFives x' y count)
    (hlower : (1 - fiveLoss) * (x.value * 5) ≤ x'.value) (hupper : x'.value ≤ x.value * 5)
    (hle : x.exponent ≤ x'.exponent) (hsucc : x'.exponent ≤ x.exponent + 1) :
    TimesFives x y (count + 1) where
  coefficient_pos := h.coefficient_pos
  coefficient_lt := h.coefficient_lt
  exponent_le := hle.trans h.exponent_le
  le_exponent := by
    have hexponent := h.le_exponent
    push_cast
    omega
  le_value := by
    have hloss : (0 : ℚ) ≤ (1 - fiveLoss) ^ count * 5 ^ count := by
      rw [fiveLoss]
      positivity
    have hmul := mul_le_mul_of_nonneg_left hlower hloss
    calc (1 - fiveLoss) ^ (count + 1) * (x.value * 5 ^ (count + 1))
        = (1 - fiveLoss) ^ count * 5 ^ count * ((1 - fiveLoss) * (x.value * 5)) := by ring
      _ ≤ (1 - fiveLoss) ^ count * 5 ^ count * x'.value := hmul
      _ = (1 - fiveLoss) ^ count * (x'.value * 5 ^ count) := by ring
      _ ≤ y.value := h.le_value
  value_le := by
    have hmul := mul_le_mul_of_nonneg_right hupper (show (0 : ℚ) ≤ 5 ^ count by positivity)
    calc y.value ≤ x'.value * 5 ^ count := h.value_le
      _ ≤ x.value * 5 * 5 ^ count := hmul
      _ = x.value * 5 ^ (count + 1) := by ring

theorem fiveLoss_mul_le {v : ℚ} (hv : 0 ≤ v) : (1 - fiveLoss) * v ≤ v := by
  have hloss : 0 ≤ fiveLoss := by
    rw [fiveLoss]
    positivity
  have hmul := mul_nonneg hloss hv
  linarith

theorem timesFives_spec (count : Nat) {x : Scaled} (hpos : 0 < x.coefficient)
    (hlt : x.coefficient < Nat.pow 2 96) : TimesFives x (timesFives count x) count := by
  induction count generalizing x with
  | zero => exact ⟨hpos, hlt, le_refl _, by simp [timesFives], by simp [timesFives],
      by simp [timesFives]⟩
  | succ count ih =>
      have hnonneg : 0 ≤ x.value * 5 := mul_nonneg x.value_nonneg (by norm_num)
      rw [timesFives]
      split_ifs with heven hroom
      · refine (ih (x := ⟨x.coefficient / 2, x.exponent + 1⟩) ?_ ?_).step ?_ ?_ ?_ (le_refl _)
        · exact Nat.div_pos (by omega) (by decide)
        · exact Nat.lt_of_le_of_lt (Nat.div_le_self _ _) hlt
        · rw [value_half heven]
          exact fiveLoss_mul_le hnonneg
        · exact (value_half heven).le
        · exact (Int.lt_succ _).le
      · refine (ih (x := ⟨x.coefficient * 5, x.exponent⟩) ?_ hroom).step ?_ ?_ (le_refl _) ?_
        · exact Nat.mul_pos hpos (by decide)
        · rw [value_five]
          exact fiveLoss_mul_le hnonneg
        · exact value_five.le
        · exact (Int.lt_succ _).le
      · -- the coefficient is full and loses its last bit
        have hhalf := value_half_le (Nat.le_of_not_lt hroom)
        refine (ih (x := ⟨x.coefficient / 2, x.exponent + 1⟩) ?_ ?_).step hhalf.2 hhalf.1 ?_
          (le_refl _)
        · have hbig : 10 ≤ x.coefficient * 5 :=
            Nat.le_trans (by decide) (Nat.le_of_not_lt hroom)
          exact Nat.div_pos (by omega) (by decide)
        · exact Nat.lt_of_le_of_lt (Nat.div_le_self _ _) hlt
        · exact (Int.lt_succ _).le

/-- However many fives there are in a double, little is lost of it. -/
theorem TimesFives.loss (h : TimesFives x y count) (hcount : count ≤ 1074) :
    (1 - 1 / 2 ^ 81) * (x.value * 5 ^ count) ≤ y.value := by
  have hbernoulli := one_add_mul_le_pow (show (-2 : ℚ) ≤ -fiveLoss by rw [fiveLoss]; norm_num) count
  rw [← sub_eq_add_neg] at hbernoulli
  have hcast : (count : ℚ) ≤ 1074 := by exact_mod_cast hcount
  have hloss : count * fiveLoss ≤ 1 / 2 ^ 81 := by
    rw [fiveLoss]
    linarith
  have hnonneg : 0 ≤ x.value * 5 ^ count := mul_nonneg x.value_nonneg (by positivity)
  refine le_trans (mul_le_mul_of_nonneg_right ?_ hnonneg) h.le_value
  linarith

/-- A whole number takes its twos to the power of ten. -/
theorem timesFives_whole (count coefficient : Nat) (exponent : Int) :
    timesFives count ⟨coefficient * 2 ^ count, exponent⟩ = ⟨coefficient, exponent + count⟩ := by
  induction count generalizing exponent with
  | zero => simp [timesFives]
  | succ count ih =>
      have hhalf : coefficient * 2 ^ (count + 1) / 2 = coefficient * 2 ^ count := by
        rw [pow_succ, ← Nat.mul_assoc, Nat.mul_div_cancel _ (by decide)]
      have heven : coefficient * 2 ^ (count + 1) % 2 = 0 := by
        rw [pow_succ, ← Nat.mul_assoc, Nat.mul_mod_left]
      rw [timesFives, if_pos heven, hhalf, ih]
      push_cast
      rw [Int.add_assoc, Int.add_comm 1]

/-- Dividing by fives doubles up to 96 bits, and refuses what is larger. -/
theorem overFives?_eq (count : Nat) {coefficient : Nat} (h : coefficient < Nat.pow 2 96) :
    overFives? count ⟨coefficient, count⟩ =
      if coefficient * 2 ^ count < Nat.pow 2 96 then some ⟨coefficient * 2 ^ count, 0⟩
      else none := by
  induction count generalizing coefficient with
  | zero => simp [overFives?, h]
  | succ count ih =>
      have hpow : coefficient * 2 ^ (count + 1) = coefficient * 2 * 2 ^ count := by
        rw [pow_succ]
        ring
      have hlimit : Nat.pow 2 96 = Nat.pow 2 95 * 2 := rfl
      have hexponent : ((count + 1 : Nat) : Int) - 1 = count := by
        push_cast
        omega
      rw [overFives?, hpow]
      dsimp only
      rcases Nat.lt_or_ge coefficient (Nat.pow 2 95) with hroom | hfull
      · rw [if_pos hroom, hexponent, ih (by omega)]
      · -- what is full before the last doubling is too large behind it
        have hlarge : Nat.pow 2 96 ≤ coefficient * 2 * 2 ^ count := by
          rw [hlimit]
          exact (Nat.mul_le_mul_right 2 hfull).trans (Nat.le_mul_of_pos_right _ (by positivity))
        rw [if_neg (Nat.not_lt.2 hfull), if_pos (by omega), if_neg (Nat.not_lt.2 hlarge)]

/-! ## Dropping digits -/

/-- The number in steps of a power of ten is between five ninths of a step below the coefficient and
four ninths above it. -/
structure Near (v : ℚ) (z : Scaled) : Prop where
  coefficient_le : (z.coefficient : ℚ) ≤ v / 10 ^ z.exponent + 5 / 9
  le_coefficient : v / 10 ^ z.exponent ≤ z.coefficient + 4 / 9

theorem near_value (x : Scaled) : Near x.value x := by
  have hten : (10 : ℚ) ^ x.exponent ≠ 0 := (zpow_pos (by norm_num) _).ne'
  constructor
  · rw [value, mul_div_cancel_right₀ _ hten]
    linarith
  · rw [value, mul_div_cancel_right₀ _ hten]
    linarith

/-- Half a step is added at most, and four tenths of one are lost at most. -/
theorem dropDigit_bounds (n : Nat) :
    (dropDigit n : ℚ) ≤ n / 10 + 1 / 2 ∧ (n : ℚ) / 10 ≤ dropDigit n + 4 / 10 := by
  have hbounds : 10 * dropDigit n ≤ n + 5 ∧ n ≤ 10 * dropDigit n + 4 := by
    rw [dropDigit]
    split <;> omega
  have hle : ((10 * dropDigit n : Nat) : ℚ) ≤ (n + 5 : Nat) := Nat.cast_le.2 hbounds.1
  have hge : (n : ℚ) ≤ (10 * dropDigit n + 4 : Nat) := Nat.cast_le.2 hbounds.2
  push_cast at hle hge
  constructor
  · linarith
  · linarith

/-- The error of a step is a tenth of the error before it and the part that the digit adds. -/
theorem Near.dropDigit {v : ℚ} {z : Scaled} (h : Near v z) :
    Near v ⟨Scaled.dropDigit z.coefficient, z.exponent + 1⟩ := by
  obtain ⟨hle, hge⟩ := dropDigit_bounds z.coefficient
  have hsteps : v / 10 ^ (z.exponent + 1) = v / 10 ^ z.exponent / 10 := by
    rw [zpow_add_one₀ (by norm_num), div_div]
  have hcoefficient := h.coefficient_le
  have hcoefficient' := h.le_coefficient
  constructor
  · dsimp only
    rw [hsteps]
    linarith
  · dsimp only
    rw [hsteps]
    linarith

theorem ten_zpow_pos (e : Int) : (0 : ℚ) < 10 ^ e := zpow_pos (by norm_num) e

/-- Digits that have to be dropped leave the number near, unless none of them is left. -/
theorem Near.dropDigits {v : ℚ} (h : Near v x) (hexponent : x.exponent + count = -28) :
    (Near v (dropDigits count x) ∧ (dropDigits count x).exponent = -28) ∨
      (dropDigits count x = ⟨0, 0⟩ ∧ v * 10 ^ 29 < 19 / 2) := by
  induction count generalizing x with
  | zero => exact Or.inl ⟨h, by simpa [Scaled.dropDigits] using hexponent⟩
  | succ count ih =>
      rw [Scaled.dropDigits]
      split
      · next hnone =>
          refine Or.inr ⟨rfl, ?_⟩
          have hdigit : (x.coefficient : ℚ) ≤ 9 := by
            have hle : x.coefficient ≤ 9 := by omega
            exact_mod_cast hle
          have hpow : (10 : ℚ) ^ x.exponent * 10 ^ 29 ≤ 1 := by
            rw [← zpow_natCast, ← zpow_add₀ (by norm_num)]
            refine zpow_le_one_of_nonpos₀ (by norm_num) ?_
            push_cast at hexponent ⊢
            omega
          have hsteps : v = v / 10 ^ x.exponent * 10 ^ x.exponent :=
            (div_mul_cancel₀ v (ten_zpow_pos _).ne').symm
          have hle : v / 10 ^ x.exponent ≤ 9 + 4 / 9 := by
            have hnear := h.le_coefficient
            linarith
          calc v * 10 ^ 29 = v / 10 ^ x.exponent * (10 ^ x.exponent * 10 ^ 29) := by
                rw [← mul_assoc, ← hsteps]
            _ ≤ (9 + 4 / 9) * (10 ^ x.exponent * 10 ^ 29) :=
                mul_le_mul_of_nonneg_right hle (mul_nonneg (ten_zpow_pos _).le (by norm_num))
            _ ≤ (9 + 4 / 9) * 1 := mul_le_mul_of_nonneg_left hpow (by norm_num)
            _ < 19 / 2 := by norm_num
      · refine ih h.dropDigit ?_
        dsimp only
        push_cast at hexponent
        omega

/-- Where digits are dropped for their precision, 52 bits but for a tenth of a digit are left. -/
theorem Near.precise {v : ℚ} (h : Near v x) (count : Nat) :
    toPrecision count x = x ∨
      (Near v (toPrecision count x) ∧ 2 ^ 52 ≤ 10 * (toPrecision count x).coefficient + 4) := by
  induction count generalizing x with
  | zero => exact Or.inl rfl
  | succ count ih =>
      rw [toPrecision]
      split
      · next hlarge =>
          refine Or.inr ?_
          rcases ih h.dropDigit with hstop | hmore
          · rw [hstop]
            refine ⟨h.dropDigit, hlarge.trans ?_⟩
            dsimp only
            rw [Scaled.dropDigit]
            split <;> omega
          · exact hmore
      · exact Or.inl rfl

theorem Near.abs_sub_le {v : ℚ} (h : Near v z) : |z.value - v| ≤ 5 / 9 * 10 ^ z.exponent := by
  have hpos := ten_zpow_pos z.exponent
  have hle := mul_le_mul_of_nonneg_right h.coefficient_le hpos.le
  have hge := mul_le_mul_of_nonneg_right h.le_coefficient hpos.le
  rw [add_mul, div_mul_cancel₀ _ hpos.ne'] at hle
  rw [add_mul, div_mul_cancel₀ _ hpos.ne'] at hge
  rw [abs_le, value]
  constructor
  · linarith
  · linarith

/-- The error next to a coefficient that is large. -/
theorem Near.abs_sub_le_of_large {v : ℚ} (h : Near v z) (hlarge : 2 ^ 52 ≤ 10 * z.coefficient + 4) :
    |z.value - v| ≤ 3 / 4 / 2 ^ 49 * v := by
  refine h.abs_sub_le.trans ?_
  have hpos := ten_zpow_pos z.exponent
  have hcast : (2 ^ 52 : ℚ) ≤ 10 * z.coefficient + 4 := by exact_mod_cast hlarge
  have hsteps : (2 ^ 52 - 10 : ℚ) / 10 ≤ v / 10 ^ z.exponent := by
    have hnear := h.coefficient_le
    linarith
  rw [le_div_iff₀ hpos] at hsteps
  linarith

/-- Digits after the point are dropped, at most `count` of them. -/
structure Shortens (count : Nat) (x z : Scaled) : Prop where
  coefficient_le : z.coefficient ≤ x.coefficient
  exponent_le : x.exponent ≤ z.exponent
  le_exponent : z.exponent ≤ x.exponent + count

theorem shortens_self (count : Nat) (x : Scaled) : Shortens count x x :=
  ⟨Nat.le_refl _, le_refl _, Int.le_add_of_nonneg_right (Int.natCast_nonneg _)⟩

theorem Shortens.step {x' : Scaled} (h : Shortens count x' z)
    (hcoefficient : x'.coefficient ≤ x.coefficient) (hexponent : x'.exponent = x.exponent + 1) :
    Shortens (count + 1) x z where
  coefficient_le := h.coefficient_le.trans hcoefficient
  exponent_le := by
    have hle := h.exponent_le
    omega
  le_exponent := by
    have hle := h.le_exponent
    push_cast
    omega

theorem dropDigit_le (n : Nat) : dropDigit n ≤ n := by
  rw [dropDigit]
  split <;> omega

theorem shortens_toPrecision (count : Nat) (x : Scaled) :
    Shortens count x (toPrecision count x) := by
  induction count generalizing x with
  | zero => exact shortens_self 0 x
  | succ count ih =>
      rw [toPrecision]
      split
      · exact (ih _).step (dropDigit_le _) rfl
      · exact shortens_self _ x

theorem shortens_dropZeros (count : Nat) (x : Scaled) : Shortens count x (dropZeros count x) := by
  induction count generalizing x with
  | zero => exact shortens_self 0 x
  | succ count ih =>
      rw [dropZeros]
      split
      · exact (ih _).step (Nat.div_le_self _ _) rfl
      · exact shortens_self _ x

/-- Digits that have to be dropped are dropped, or nothing is left. -/
theorem dropDigits_spec (count : Nat) (x : Scaled) :
    (dropDigits count x).coefficient ≤ x.coefficient ∧
      ((dropDigits count x).exponent = x.exponent + count ∨ dropDigits count x = ⟨0, 0⟩) := by
  induction count generalizing x with
  | zero => simp [dropDigits]
  | succ count ih =>
      rw [dropDigits]
      split
      · exact ⟨Nat.zero_le _, Or.inr rfl⟩
      · obtain ⟨hle, hexponent⟩ := ih ⟨dropDigit x.coefficient, x.exponent + 1⟩
        refine ⟨hle.trans (dropDigit_le _), hexponent.imp_left fun heq => ?_⟩
        rw [heq]
        push_cast
        omega

/-- The zeros that are dropped add nothing to the number. -/
theorem value_dropZeros (count : Nat) (x : Scaled) : (dropZeros count x).value = x.value := by
  induction count generalizing x with
  | zero => rfl
  | succ count ih =>
      rw [dropZeros]
      split
      · next hzero =>
          have hten : ((x.coefficient / 10 : Nat) : ℚ) * 10 = x.coefficient := by
            exact_mod_cast Nat.div_mul_cancel (Nat.dvd_of_mod_eq_zero hzero)
          rw [ih, value, value, zpow_add_one₀ (by norm_num), ← hten]
          ring
      · rfl

/-- The parts of a number in the range of scales are those of a decimal. -/
structure Settled (x z : Scaled) : Prop where
  coefficient_le : z.coefficient ≤ x.coefficient
  least : -28 ≤ z.exponent
  exponent_le : z.exponent ≤ 0

theorem settled_spec (hexponent : x.exponent ≤ 0) : Settled x (settled x) := by
  obtain ⟨hdropped, hscale⟩ := dropDigits_spec (-x.exponent - maxScale).toNat x
  have hrange : -28 ≤ (dropDigits (-x.exponent - maxScale).toNat x).exponent ∧
      (dropDigits (-x.exponent - maxScale).toNat x).exponent ≤ 0 := by
    rcases hscale with heq | hzero
    · rw [heq, maxScale]
      omega
    · rw [hzero]
      exact ⟨by decide, by decide⟩
  rw [settled]
  generalize dropDigits (-x.exponent - maxScale).toNat x = y at hdropped hrange ⊢
  have hprecise := shortens_toPrecision (-y.exponent).toNat y
  have hrange' := And.intro hprecise.exponent_le hprecise.le_exponent
  have hle := hprecise.coefficient_le
  generalize toPrecision (-y.exponent).toNat y = z at hrange' hle ⊢
  have hzeros := shortens_dropZeros (-z.exponent).toNat z
  have hrange'' := And.intro hzeros.exponent_le hzeros.le_exponent
  have hle' := hzeros.coefficient_le
  exact ⟨by omega, by omega, by omega⟩

/-- The error of settling. -/
theorem abs_settled_sub_le (hexponent : x.exponent ≤ 0) :
    |(settled x).value - x.value| ≤ 3 / 4 / 2 ^ 49 * x.value + 1 / 10 ^ 28 := by
  have hnonneg := x.value_nonneg
  have hnear := near_value x
  rw [settled, value_dropZeros]
  rcases Int.lt_or_le x.exponent (-28) with hdeep | hrange
  · have hcount : x.exponent + ((-x.exponent - maxScale).toNat : Nat) = -28 := by
      rw [maxScale]
      omega
    rcases hnear.dropDigits hcount with ⟨hdropped, heq⟩ | ⟨hzero, hsmall⟩
    · generalize dropDigits (-x.exponent - maxScale).toNat x = y at hdropped heq ⊢
      rcases hdropped.precise (-y.exponent).toNat with hstop | ⟨hmore, hlarge⟩
      · rw [hstop]
        have hle := hdropped.abs_sub_le
        rw [heq] at hle
        have hpow : (10 : ℚ) ^ (-28 : Int) = 1 / 10 ^ 28 := by norm_num
        rw [hpow] at hle
        linarith
      · have hle := hmore.abs_sub_le_of_large hlarge
        linarith
    · have hvalue : (toPrecision (-(⟨0, 0⟩ : Scaled).exponent).toNat ⟨0, 0⟩).value = 0 := by
        norm_num [toPrecision, value]
      rw [hzero, hvalue, zero_sub, abs_neg, abs_of_nonneg hnonneg]
      linarith
  · have hnone : (-x.exponent - maxScale).toNat = 0 := by
      rw [maxScale]
      omega
    rw [hnone, dropDigits]
    rcases hnear.precise (-x.exponent).toNat with hstop | ⟨hmore, hlarge⟩
    · rw [hstop, sub_self, abs_zero]
      positivity
    · have hle := hmore.abs_sub_le_of_large hlarge
      linarith

/-- A number with digits after the point, or none, is not too large if its coefficient is not. -/
theorem toDecimal?_eq_some (negative : Bool) (hlt : x.coefficient < Nat.pow 2 96)
    (hexponent : x.exponent ≤ 0) :
    ∃ d, toDecimal? negative x = some d ∧ d.toRat = withSign negative (settled x).value := by
  obtain ⟨hcoefficient, hleast, hmost⟩ := settled_spec hexponent
  have hfits : (settled x).coefficient < Nat.pow 2 96 ∧ (-(settled x).exponent).toNat ≤ 28 :=
    ⟨by omega, by omega⟩
  refine ⟨⟨negative, _, _, hfits.1, hfits.2⟩, ?_, ?_⟩
  · have hexpand : x.exponent.toNat = 0 := by omega
    rw [toDecimal?, hexpand, multiplyOut?, Option.bind_eq_bind, Option.bind_some,
      Int.min_eq_left hexponent, ofParts?, dif_pos hfits]
  · have hscale : (10 : ℚ) ^ (settled x).exponent = (10 ^ (-(settled x).exponent).toNat)⁻¹ := by
      rw [← zpow_natCast, ← zpow_neg, Int.toNat_of_nonneg (by omega), neg_neg]
    rw [toRat_eq, value, hscale, div_eq_mul_inv]

/-- A power of two below one leaves digits after the point, which fit. -/
theorem ofPowerOfTwo?_below {mantissa : Nat} (hpos : 0 < mantissa) (hm : mantissa < Nat.pow 2 53)
    {exponent : Int} (hexponent : exponent ≤ 0) :
    ∃ y, ofPowerOfTwo? mantissa exponent = some y ∧
      TimesFives ⟨mantissa, exponent⟩ y (-exponent).toNat ∧ y.exponent ≤ 0 := by
  have hlt : mantissa < Nat.pow 2 96 := hm.trans (by decide)
  have hspec := timesFives_spec (-exponent).toNat (x := ⟨mantissa, exponent⟩) hpos hlt
  refine ⟨_, if_pos hexponent, hspec, ?_⟩
  have hle : _ ≤ exponent + _ := hspec.le_exponent
  omega

/-- A whole number is itself, unless it is too large. -/
theorem ofPowerOfTwo?_above {mantissa : Nat} (hm : mantissa < Nat.pow 2 53) {k : Nat}
    (hk : 0 < k) :
    ofPowerOfTwo? mantissa k =
      if mantissa * 2 ^ k < Nat.pow 2 96 then some ⟨mantissa * 2 ^ k, 0⟩ else none := by
  rw [ofPowerOfTwo?, if_neg (by omega), Int.toNat_natCast,
    overFives?_eq k (hm.trans (by decide))]

end Scaled

/-! ## Every double below the limit -/

/-- The number of units of the largest decimal, and one more. -/
def decimalUnitsLimit : Nat := Nat.pow 2 96 * Binary64.unitsPerOne

variable {negative : Bool} {m s : Nat}

theorem decimalUnitsLimit_eq {t : Nat} (h : t = 1074) :
    decimalUnitsLimit = Nat.pow 2 96 * Nat.pow 2 t := by
  subst h
  decide +kernel

theorem decimalUnitsLimit_le : decimalUnitsLimit ≤ Binary64.unitsLimit := by
  obtain ⟨t, ht⟩ : ∃ t, t = 1074 := ⟨_, rfl⟩
  obtain ⟨s, hs⟩ : ∃ s, s = 1024 := ⟨_, rfl⟩
  rw [decimalUnitsLimit_eq ht, Binary64.unitsLimit_eq (show s + t = 2098 by omega)]
  exact Nat.mul_le_mul_right _ (Nat.pow_le_pow_right (by decide) (by omega))

theorem exists_ofBinary64?_finite_iff (negative : Bool) (hc : Canonical m s) :
    (∃ d, ofBinary64? (.finite negative m s hc) = some d) ↔
      m * Nat.pow 2 s < decimalUnitsLimit := by
  obtain ⟨t, ht⟩ : ∃ t, t = 1074 := ⟨_, rfl⟩
  have htwo : ∀ j k, Nat.pow 2 (j + k) = Nat.pow 2 j * Nat.pow 2 k := Nat.pow_add 2
  rw [ofBinary64?, decimalUnitsLimit_eq ht]
  rcases Nat.eq_zero_or_pos m with hzero | hpos
  · rw [if_pos hzero, hzero, Nat.zero_mul]
    exact iff_of_true ⟨_, rfl⟩ (Nat.mul_pos (Nat.pow_pos (by decide)) (Nat.pow_pos (by decide)))
  · rw [if_neg (by omega)]
    rcases Nat.lt_or_ge t s with habove | hbelow
    · obtain ⟨k, hk, rfl⟩ : ∃ k, 0 < k ∧ s = k + t := ⟨s - t, by omega, by omega⟩
      have hexponent : ((k + t : Nat) : Int) - 1074 = k := by omega
      have hpos : 0 < Nat.pow 2 t := Nat.pow_pos (by decide)
      rw [hexponent, Scaled.ofPowerOfTwo?_above hc.1 hk, htwo, ← Nat.mul_assoc,
        Nat.mul_lt_mul_right hpos]
      change _ ↔ m * 2 ^ k < _
      split_ifs with hfits
      · refine iff_of_true ?_ hfits
        obtain ⟨d, hd, -⟩ :=
          Scaled.toDecimal?_eq_some (x := ⟨m * 2 ^ k, 0⟩) negative hfits (le_refl _)
        exact ⟨d, hd⟩
      · refine iff_of_false ?_ hfits
        rintro ⟨d, hd⟩
        cases hd
    · obtain ⟨y, hy, hspec, hexponent⟩ :=
        Scaled.ofPowerOfTwo?_below hpos hc.1 (show (s : Int) - 1074 ≤ 0 by omega)
      obtain ⟨d, hd, -⟩ := Scaled.toDecimal?_eq_some negative hspec.coefficient_lt hexponent
      refine iff_of_true ⟨d, ?_⟩ ?_
      · rw [hy, Option.bind_some, hd]
      · exact Nat.mul_lt_mul_of_lt_of_le (hc.1.trans (by decide))
          (Nat.pow_le_pow_right (by decide) hbelow) (Nat.pow_pos (by decide))

/-- **Doubles as decimals.** A double becomes a decimal if it is below `2 ^ 96`, and not else. -/
theorem exists_ofBinary64?_iff (x : Binary64) :
    (∃ d, ofBinary64? x = some d) ↔ ∃ u, x.units? = some u ∧ u.natAbs < decimalUnitsLimit := by
  cases x with
  | finite negative m s hc =>
      rw [exists_ofBinary64?_finite_iff, Binary64.units?]
      cases negative <;> simp [Int.natAbs_neg, Int.natAbs_mul, Int.natAbs_pow]
  | infinite negative =>
      refine iff_of_false (by rintro ⟨d, hd⟩; cases hd) ?_
      rintro ⟨u, hu, hlt⟩
      have hmagnitude (n : Nat) : (if negative then -(n : Int) else n).natAbs = n := by
        cases negative <;> simp
      have hlimit : Nat.pow 2 2098 = Binary64.unitsLimit := by
        unfold Binary64.unitsLimit
        rfl
      rw [Binary64.units?, hlimit] at hu
      rw [← Option.some.inj hu, hmagnitude] at hlt
      exact Nat.not_lt.2 decimalUnitsLimit_le hlt
  | nan => exact iff_of_false (by rintro ⟨d, hd⟩; cases hd) (by rintro ⟨u, hu, -⟩; cases hu)

end Criteria.Number.Decimal
