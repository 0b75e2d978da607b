import Criteria.Proofs.Number.DecimalOfDouble
import Mathlib.Data.Nat.Find
import Mathlib.Tactic.Push

set_option autoImplicit false

/-! # Decimals through doubles

A decimal number that is rounded to a double and made a decimal again comes back as itself if it is
short: the digits that are dropped hold the error of rounding, and dropping stops where the digits
are those of the number (`exists_toRat_eq`). So does a whole number (`exists_toRat_eq_whole`). For
any double the decimal is a close one (`abs_toRat_sub_le`).

Dropping is not rounding to the nearest: it may go five ninths of a step up, and it stops at 52 bits
although a double has 53. So the digits come back only if the double is less than four ninths of a
step above them. Up to `exactLimit` it always is; between there and `2 ^ 52` that depends on the
number (`Safe`). -/

namespace Criteria.Number.Decimal

/-- Up to this coefficient, the error of a double is less than four ninths of a step. -/
def exactLimit : Nat := 4000000000000000

/-- Wherever the digits, with zeros behind them, may be those at which dropping ends, the double
with this number of units is less than four ninths of a step above the number. -/
def Safe (digits scale units : Nat) : Prop :=
  ∀ k, digits * 10 ^ k ≤ exactLimit ∨ 2 ^ 52 < digits * 10 ^ k ∨
    (digits * 10 ^ k < 2 ^ 52 ∧
      9 * (units * 10 ^ (scale + k)) < (9 * (digits * 10 ^ k) + 4) * Binary64.unitsPerOne)

/-- With sixteen zeros, the digits are past `2 ^ 52`. -/
theorem safe_iff (digits scale units : Nat) :
    (∀ k < 16, digits * 10 ^ k ≤ exactLimit ∨ 2 ^ 52 < digits * 10 ^ k ∨
      (digits * 10 ^ k < 2 ^ 52 ∧
        9 * (units * 10 ^ (scale + k)) < (9 * (digits * 10 ^ k) + 4) * Binary64.unitsPerOne)) ↔
      Safe digits scale units := by
  constructor
  · intro h k
    rcases Nat.lt_or_ge k 16 with hsmall | hlarge
    · exact h k hsmall
    · rcases Nat.eq_zero_or_pos digits with rfl | hpos
      · exact Or.inl (by simp)
      · refine Or.inr (Or.inl (Nat.lt_of_lt_of_le (show 2 ^ 52 < 10 ^ 16 by decide) ?_))
        exact (Nat.pow_le_pow_right (by decide) hlarge).trans (Nat.le_mul_of_pos_left _ hpos)
  · intro h k _
    exact h k

instance (digits scale units : Nat) : Decidable (Safe digits scale units) :=
  decidable_of_iff _ (safe_iff digits scale units)

namespace Scaled

variable {v Y : ℚ} {x y z : Scaled} {count : Nat}

/-- A number next to `v`, as near as rounding to a double and multiplying out leave it. -/
structure Close (v Y : ℚ) : Prop where
  lower : (1 - 1 / 2 ^ 53 - 1 / 2 ^ 80) * v ≤ Y
  upper : Y ≤ (1 + 1 / 2 ^ 53) * v

theorem Close.div (h : Close v Y) {t : ℚ} (ht : 0 < t) : Close (v / t) (Y / t) := by
  constructor
  · rw [← mul_div_assoc]
    exact div_le_div_of_nonneg_right h.lower ht.le
  · rw [← mul_div_assoc]
    exact div_le_div_of_nonneg_right h.upper ht.le

/-- Up to the limit, what is close is less than four ninths of a step above. -/
theorem Close.lt_of_le (h : Close v Y) {e : Int} {n : Nat} (hn : v / 10 ^ e = n)
    (hlimit : n ≤ exactLimit) : Y / 10 ^ e < n + 4 / 9 := by
  have hsteps := (h.div (ten_zpow_pos e)).upper
  have hcast : (n : ℚ) ≤ 4000000000000000 := by exact_mod_cast hlimit
  rw [hn] at hsteps
  linarith

theorem cast_lt_pow {n : Nat} (h : n < 2 ^ 52) : (n : ℚ) < 2 ^ 52 := by exact_mod_cast h

/-- A whole number of steps is the coefficient, if the number is not too far above it. -/
theorem Near.coefficient_eq (h : Near Y z) (hclose : Close v Y) {n : Nat}
    (hn : v / 10 ^ z.exponent = n) (hlimit : n < 2 ^ 52)
    (habove : Y / 10 ^ z.exponent < n + 4 / 9) : z.coefficient = n := by
  have hsteps := hclose.div (ten_zpow_pos z.exponent)
  rw [hn] at hsteps
  have hcast := cast_lt_pow hlimit
  have hupper : (z.coefficient : ℚ) < n + 1 := by
    have hle := h.coefficient_le
    linarith
  have hlower : (n : ℚ) < z.coefficient + 1 := by
    have hle := h.le_coefficient
    have hclose := hsteps.lower
    linarith
  have hupper' : z.coefficient < n + 1 := by exact_mod_cast hupper
  have hlower' : n < z.coefficient + 1 := by exact_mod_cast hlower
  omega

/-- Digits are dropped where the number has more than 52 bits. -/
theorem Near.le_of_large (h : Near Y z) (hclose : Close v Y)
    (hlarge : 2 ^ 52 + 1 ≤ v / 10 ^ z.exponent) : Nat.pow 2 52 ≤ z.coefficient := by
  have hsteps := (hclose.div (ten_zpow_pos z.exponent)).lower
  have hle := h.le_coefficient
  have hlt : (2 ^ 52 : ℚ) < z.coefficient + 1 := by linarith
  have hlt' : 2 ^ 52 < z.coefficient + 1 := by exact_mod_cast hlt
  exact Nat.le_of_lt_succ hlt'

/-- Dropping digits ends where the number is a whole number of steps of at most 52 bits. -/
theorem Near.value_toPrecision (h : Near Y x) (hclose : Close v Y) {e : Int} {n : Nat}
    (hn : v / 10 ^ e = n) (hlimit : n < 2 ^ 52) (habove : Y / 10 ^ e < n + 4 / 9)
    (hlarge : ∀ e', x.exponent ≤ e' → e' < e → 2 ^ 52 + 1 ≤ v / 10 ^ e')
    (he : e ≤ 0) (hexponent : x.exponent ≤ e) (hcount : x.exponent + count = 0) :
    (toPrecision count x).value = v := by
  have hdone {z : Scaled} (hz : Near Y z) (heq : z.exponent = e) :
      z.coefficient < Nat.pow 2 52 ∧ z.value = v := by
    subst heq
    have hcoefficient := hz.coefficient_eq hclose hn hlimit habove
    refine ⟨?_, ?_⟩
    · rw [hcoefficient]
      exact hlimit
    · rw [value, hcoefficient, ← hn, div_mul_cancel₀ _ (ten_zpow_pos _).ne']
  induction count generalizing x with
  | zero => exact (hdone h (by omega)).2
  | succ count ih =>
      rw [toPrecision]
      rcases Int.lt_or_eq_of_le hexponent with hlt | heq
      · rw [if_pos (h.le_of_large hclose (hlarge _ (le_refl _) hlt))]
        refine ih h.dropDigit (fun e' hle => hlarge e' (by dsimp only at hle; omega)) ?_ ?_
        · dsimp only
          omega
        · dsimp only
          push_cast at hcount
          omega
      · obtain ⟨hsmall, hvalue⟩ := hdone h heq
        rw [if_neg (Nat.not_le.2 hsmall), hvalue]

/-- A number with fewer digits after the point is already exact. -/
theorem value_eq_of_fewer (hclose : Close v x.value) {e : Int} {n : Nat}
    (hn : v / 10 ^ e = n) (hlimit : n < 2 ^ 52) (hexponent : e ≤ x.exponent) :
    x.coefficient < Nat.pow 2 52 ∧ x.value = v := by
  obtain ⟨k, hk⟩ := Int.le.dest hexponent
  have hsteps := hclose.div (ten_zpow_pos e)
  have hwhole : x.value / 10 ^ e = (x.coefficient * 10 ^ k : Nat) := by
    rw [value, ← hk, zpow_add₀ (by norm_num), zpow_natCast]
    push_cast
    field_simp
  have hcast := cast_lt_pow hlimit
  rw [hn] at hsteps
  have hupper : x.value / 10 ^ e < n + 1 := by
    have hclose := hsteps.upper
    linarith
  have hlower : (n : ℚ) < x.value / 10 ^ e + 1 := by
    have hclose := hsteps.lower
    linarith
  rw [hwhole] at hupper hlower
  have hupper' : x.coefficient * 10 ^ k < n + 1 := by exact_mod_cast hupper
  have hlower' : n < x.coefficient * 10 ^ k + 1 := by exact_mod_cast hlower
  constructor
  · have hle : x.coefficient ≤ x.coefficient * 10 ^ k :=
      Nat.le_mul_of_pos_right _ (by positivity)
    exact Nat.lt_of_le_of_lt (hle.trans (Nat.le_of_lt_succ hupper')) hlimit
  · have heq : x.value / 10 ^ e = v / 10 ^ e := by
      rw [hwhole, hn]
      exact_mod_cast Nat.le_antisymm (Nat.le_of_lt_succ hupper') (Nat.le_of_lt_succ hlower')
    exact (div_left_inj' (ten_zpow_pos e).ne').1 heq

theorem toPrecision_of_lt (h : x.coefficient < Nat.pow 2 52) : toPrecision count x = x := by
  cases count with
  | zero => rfl
  | succ count => rw [toPrecision, if_neg (Nat.not_le.2 h)]

/-- What is settled is the number, if digits are dropped down to a whole number of steps. -/
theorem value_settled (hclose : Close v x.value) {e : Int} {n : Nat} (hn : v / 10 ^ e = n)
    (hlimit : n < 2 ^ 52) (habove : x.value / 10 ^ e < n + 4 / 9)
    (hlarge : ∀ e', -28 ≤ e' → e' < e → 2 ^ 52 + 1 ≤ v / 10 ^ e')
    (he : e ≤ 0) (hleast : -28 ≤ e) (hpos : 1 ≤ v * 10 ^ 28) (hexponent : x.exponent ≤ 0) :
    (settled x).value = v := by
  rw [settled, value_dropZeros]
  rcases Int.lt_or_le e x.exponent with hfewer | hmore
  · -- nothing is dropped
    have hnone : (-x.exponent - maxScale).toNat = 0 := by
      rw [maxScale]
      omega
    obtain ⟨hsmall, hvalue⟩ := value_eq_of_fewer hclose hn hlimit hfewer.le
    rw [hnone, dropDigits, toPrecision_of_lt hsmall, hvalue]
  · have hnear := near_value x
    rcases Int.lt_or_le x.exponent (-28) with hdeep | hrange
    · have hcount : x.exponent + ((-x.exponent - maxScale).toNat : Nat) = -28 := by
        rw [maxScale]
        omega
      have hdigit : 19 / 2 ≤ x.value * 10 ^ 29 := by
        have hlower := hclose.lower
        linarith
      obtain ⟨hdropped, heq⟩ := (hnear.dropDigits hcount).resolve_right
        fun hnone => absurd hnone.2 (not_lt.2 hdigit)
      generalize dropDigits (-x.exponent - maxScale).toNat x = y at hdropped heq ⊢
      refine hdropped.value_toPrecision hclose hn hlimit habove ?_ he ?_ ?_
      · intro e' hle
        exact hlarge e' (by omega)
      · omega
      · omega
    · have hnone : (-x.exponent - maxScale).toNat = 0 := by
        rw [maxScale]
        omega
      rw [hnone, dropDigits]
      refine hnear.value_toPrecision hclose hn hlimit habove ?_ he hmore ?_
      · intro e' hle
        exact hlarge e' (hrange.trans hle)
      · omega

/-- Multiplying out is close, however many fives there are in a double. -/
theorem TimesFives.close (h : TimesFives x y count) (hcount : count ≤ 1074) (hv : 0 ≤ v)
    (hdouble : |x.value * 5 ^ count - v| ≤ 1 / 2 ^ 53 * v) : Close v y.value := by
  obtain ⟨hlower, hupper⟩ := abs_le.1 hdouble
  constructor
  · have hloss := h.loss hcount
    linarith
  · have hvalue := h.value_le
    linarith

end Scaled

/-! ## Short decimals -/

variable {digits scale : Nat}

/-- In steps behind its last digit, a decimal number is its digits with zeros. -/
theorem div_steps (digits scale k : Nat) :
    (digits / 10 ^ scale : ℚ) / 10 ^ (-((scale + k : Nat) : Int)) = (digits * 10 ^ k : Nat) := by
  rw [zpow_neg, zpow_natCast, pow_add, div_inv_eq_mul]
  push_cast
  field_simp

/-- Where dropping digits ends: with as many digits as there can be in 52 bits. -/
theorem exists_final_steps {units : Nat} (hlimit : digits < 2 ^ 52)
    (hsafe : Safe digits scale units) (hscale : scale ≤ 28) :
    ∃ k, scale + k ≤ 28 ∧ digits * 10 ^ k < 2 ^ 52 ∧
      ∀ e' : Int, -28 ≤ e' → e' < -((scale + k : Nat) : Int) →
        2 ^ 52 + 1 ≤ (digits / 10 ^ scale : ℚ) / 10 ^ e' := by
  have hle := Nat.findGreatest_le (P := fun k => digits * 10 ^ k < 2 ^ 52) (28 - scale)
  have hspec := Nat.findGreatest_spec (P := fun k => digits * 10 ^ k < 2 ^ 52)
    (Nat.zero_le (28 - scale)) (by simpa using hlimit)
  have hgreatest {j : Nat} := Nat.findGreatest_is_greatest
    (P := fun k => digits * 10 ^ k < 2 ^ 52) (n := 28 - scale) (k := j)
  generalize Nat.findGreatest (fun k => digits * 10 ^ k < 2 ^ 52) (28 - scale) = k
    at hle hspec hgreatest
  refine ⟨k, by omega, hspec, ?_⟩
  intro e' hleast hlt
  obtain ⟨j, rfl⟩ : ∃ j : Nat, e' = -((scale + j : Nat) : Int) :=
    ⟨(-e').toNat - scale, by omega⟩
  rw [div_steps]
  have hnot := hgreatest (j := j) (by omega) (by omega)
  have hlarge : 2 ^ 52 < digits * 10 ^ j := by
    rcases hsafe j with hsmall | hlarge | hinside
    · exact absurd (Nat.lt_of_le_of_lt hsmall (by decide)) hnot
    · exact hlarge
    · exact absurd hinside.1 hnot
  exact_mod_cast hlarge

/-- The scaled number of a double, multiplied out, is its number of units. -/
theorem value_units {m s t : Nat} (h : s ≤ t) :
    Scaled.value ⟨m, (s : Int) - t⟩ * 5 ^ (t - s) * 2 ^ t = m * 2 ^ s := by
  obtain ⟨k, rfl⟩ := Nat.exists_eq_add_of_le h
  have hexponent : (s : Int) - (s + k : Nat) = -(k : Int) := by
    push_cast
    omega
  have hten : (10 : ℚ) ^ k = 2 ^ k * 5 ^ k := by
    rw [← mul_pow]
    norm_num
  rw [Scaled.value, hexponent, zpow_neg, zpow_natCast, Nat.add_sub_cancel_left, hten, pow_add]
  field_simp

theorem unitsPerOne_eq_pow {t : Nat} (h : t = 1074) : Binary64.unitsPerOne = 2 ^ t := by
  subst h
  decide +kernel

/-- A double next to a number below `2 ^ 52` has no power of two above one. -/
theorem shift_le {m s t : Nat} {v : ℚ} (hc : Canonical m s) (hlimit : v + 1 ≤ 2 ^ 52)
    (hnear : |(m * 2 ^ s : ℚ) - v * 2 ^ t| ≤ 1 / 2 ^ 53 * (v * 2 ^ t)) : s ≤ t := by
  by_contra habove
  have hm : (2 ^ 52 : ℚ) ≤ m := by
    have hle : Nat.pow 2 52 ≤ m := hc.2.2.resolve_right (by omega)
    exact_mod_cast hle
  have hpow : (2 : ℚ) ^ t ≤ 2 ^ s := pow_le_pow_right₀ (by norm_num) (by omega)
  have hpos : (0 : ℚ) < 2 ^ t := by positivity
  have hlower : (2 ^ 52 : ℚ) * 2 ^ t ≤ m * 2 ^ s := mul_le_mul hm hpow hpos.le (Nat.cast_nonneg m)
  have hupper := (abs_le.1 hnear).2
  have hmul := mul_le_mul_of_nonneg_right hlimit hpos.le
  linarith

/-- What is multiplied out is no more than the double. -/
theorem steps_lt_of_units_lt {m s t k n : Nat} {y : ℚ} (hs : s ≤ t)
    (hle : y ≤ Scaled.value ⟨m, (s : Int) - t⟩ * 5 ^ (t - s))
    (h : 9 * (m * Nat.pow 2 s * 10 ^ k) < (9 * n + 4) * 2 ^ t) :
    y / 10 ^ (-(k : Int)) < n + 4 / 9 := by
  have hpow : (0 : ℚ) < 2 ^ t := by positivity
  have hcast : (9 * (m * 2 ^ s * 10 ^ k) : ℚ) < (9 * n + 4) * 2 ^ t := by exact_mod_cast h
  have hmul := mul_le_mul_of_nonneg_right hle (show (0 : ℚ) ≤ 2 ^ t * 10 ^ k by positivity)
  rw [← mul_assoc (_ * _) (2 ^ t), value_units hs] at hmul
  rw [zpow_neg, zpow_natCast, div_inv_eq_mul]
  refine lt_of_mul_lt_mul_right ?_ (show (0 : ℚ) ≤ 9 * 2 ^ t by positivity)
  linarith

/-- Next to zero there is only zero. -/
theorem mantissa_eq_zero_iff {m s t : Nat} {v : ℚ} (hv : 0 ≤ v)
    (hnear : |(m * 2 ^ s : ℚ) - v * 2 ^ t| ≤ 1 / 2 ^ 53 * (v * 2 ^ t)) : m = 0 ↔ v = 0 := by
  have hpow : (0 : ℚ) < 2 ^ t := by positivity
  constructor
  · rintro rfl
    have hproduct : 0 ≤ v * 2 ^ t := mul_nonneg hv hpow.le
    rw [Nat.cast_zero, zero_mul, zero_sub, abs_neg, abs_of_nonneg hproduct] at hnear
    have hzero : v * 2 ^ t = 0 := by linarith
    exact (mul_eq_zero.1 hzero).resolve_right hpow.ne'
  · rintro rfl
    rw [zero_mul, sub_zero, mul_zero] at hnear
    have hunits : (m * 2 ^ s : ℚ) = 0 := abs_eq_zero.1 (le_antisymm hnear (abs_nonneg _))
    exact_mod_cast (mul_eq_zero.1 hunits).resolve_right (pow_pos two_pos s).ne'

/-- Zero as a decimal, with its sign. -/
theorem exists_ofBinary64?_zero (negative : Bool) {m s : Nat} (hc : Canonical m s) (hm : m = 0) :
    ∃ d, ofBinary64? (.finite negative m s hc) = some d ∧ d.toRat = withSign negative 0 := by
  refine ⟨⟨negative, 0, 0, by decide, by decide⟩, ?_, ?_⟩
  · rw [ofBinary64?, if_pos hm]
    rfl
  · rw [toRat_eq, Nat.cast_zero, zero_div]

/-- A double without a power of two above one becomes a decimal: what it comes to multiplied out,
settled. -/
theorem exists_ofBinary64?_below (negative : Bool) {m s t : Nat} (hc : Canonical m s)
    (ht : t = 1074) (hs : s ≤ t) (hm : 0 < m) :
    ∃ y d, Scaled.TimesFives ⟨m, (s : Int) - t⟩ y (t - s) ∧ y.exponent ≤ 0 ∧
      ofBinary64? (.finite negative m s hc) = some d ∧
      d.toRat = withSign negative (Scaled.settled y).value := by
  obtain ⟨y, hy, hspec, hexponent⟩ :=
    Scaled.ofPowerOfTwo?_below hm hc.1 (show (s : Int) - 1074 ≤ 0 by omega)
  obtain ⟨d, hd, hrat⟩ := Scaled.toDecimal?_eq_some negative hspec.coefficient_lt hexponent
  have hcount : (-((s : Int) - 1074)).toNat = t - s := by omega
  have hstart : (s : Int) - 1074 = (s : Int) - t := by omega
  rw [hcount, hstart] at hspec
  refine ⟨y, d, hspec, hexponent, ?_, hrat⟩
  rw [ofBinary64?, if_neg (by omega), hy, Option.bind_some, hd]

/-- Wherever dropping ends, a safe number is less than four ninths of a step below its double. -/
theorem Safe.lt_steps {m s t k : Nat} {y : Scaled} (hsafe : Safe digits scale (m * Nat.pow 2 s))
    (ht : t = 1074) (hs : s ≤ t) (hspec : Scaled.TimesFives ⟨m, (s : Int) - t⟩ y (t - s))
    (hclose : Scaled.Close (digits / 10 ^ scale) y.value) (hsteps : digits * 10 ^ k < 2 ^ 52) :
    y.value / 10 ^ (-((scale + k : Nat) : Int)) < (digits * 10 ^ k : Nat) + 4 / 9 := by
  rcases hsafe k with hsmall | hpast | ⟨-, hinside⟩
  · exact hclose.lt_of_le (div_steps digits scale k) hsmall
  · exact absurd hsteps (Nat.not_lt.2 hpast.le)
  · rw [unitsPerOne_eq_pow ht] at hinside
    exact steps_lt_of_units_lt hs hspec.value_le hinside

/-- A decimal number other than zero is a step `10⁻²⁸` at least. -/
theorem one_le_mul_of_pos (hdigits : 0 < digits) (hscale : scale ≤ 28) :
    (1 : ℚ) ≤ digits / 10 ^ scale * 10 ^ 28 := by
  have hsplit : (10 : ℚ) ^ 28 = 10 ^ scale * 10 ^ (28 - scale) := by
    rw [← pow_add, Nat.add_sub_of_le hscale]
  rw [hsplit, ← mul_assoc, div_mul_cancel₀ _ (by positivity)]
  exact_mod_cast Nat.mul_pos hdigits (Nat.pow_pos (by decide))

/-- **Short decimals through doubles.** A double that is as near to a short decimal number as
rounding leaves it becomes that number. -/
theorem exists_toRat_eq (negative : Bool) {m s : Nat} (hc : Canonical m s)
    (hscale : scale ≤ 28) (hlimit : digits < 2 ^ 52)
    (hsafe : Safe digits scale (m * Nat.pow 2 s))
    (hnear : |((m * Nat.pow 2 s : Nat) : ℚ) - digits / 10 ^ scale * Binary64.unitsPerOne| ≤
      1 / 2 ^ 53 * (digits / 10 ^ scale * Binary64.unitsPerOne)) :
    ∃ d, ofBinary64? (.finite negative m s hc) = some d ∧
      d.toRat = withSign negative (digits / 10 ^ scale) := by
  obtain ⟨t, ht⟩ : ∃ t, t = 1074 := ⟨_, rfl⟩
  have hpow : (0 : ℚ) < 2 ^ t := by positivity
  have hten : (0 : ℚ) < 10 ^ scale := by positivity
  have hvalue : (0 : ℚ) ≤ digits / 10 ^ scale := div_nonneg (Nat.cast_nonneg _) hten.le
  rw [unitsPerOne_eq_pow ht] at hnear
  simp only [Nat.pow_eq] at hnear
  push_cast at hnear
  rcases Nat.eq_zero_or_pos m with hzero | hm
  · rw [(mantissa_eq_zero_iff hvalue hnear).1 hzero]
    exact exists_ofBinary64?_zero negative hc hzero
  have hdigits : 0 < digits := by
    rw [Nat.pos_iff_ne_zero]
    rintro rfl
    exact hm.ne' ((mantissa_eq_zero_iff hvalue hnear).2 (by simp))
  have hs : s ≤ t := by
    refine shift_le hc ?_ hnear
    have hone : (1 : ℚ) ≤ 10 ^ scale := one_le_pow₀ (by norm_num)
    have hdigits : (digits : ℚ) + 1 ≤ 2 ^ 52 := by exact_mod_cast hlimit
    exact (add_le_add_left (div_le_self (Nat.cast_nonneg _) hone) 1).trans hdigits
  obtain ⟨y, d, hspec, hexponent, hd, hrat⟩ := exists_ofBinary64?_below negative hc ht hs hm
  have hclose : Scaled.Close (digits / 10 ^ scale) y.value := by
    refine hspec.close (by omega) hvalue (le_of_mul_le_mul_right ?_ hpow)
    rw [← abs_of_pos hpow, ← abs_mul, sub_mul, value_units hs, abs_of_pos hpow, mul_assoc]
    exact hnear
  obtain ⟨k, hk, hsteps, hlarge⟩ := exists_final_steps hlimit hsafe hscale
  have habove := hsafe.lt_steps ht hs hspec hclose hsteps
  refine ⟨d, hd, ?_⟩
  rw [hrat, Scaled.value_settled hclose (div_steps digits scale k) hsteps habove hlarge (by omega)
    (by omega) (one_le_mul_of_pos hdigits hscale) hexponent]

/-! ## Whole numbers -/

theorem Scaled.settled_whole (coefficient : Nat) :
    settled ⟨coefficient, 0⟩ = ⟨coefficient, 0⟩ := rfl

/-- A double that is a whole number is multiplied out exactly. -/
theorem ofPowerOfTwo?_whole {m s t whole : Nat} (hc : Canonical m s) (ht : t = 1074)
    (hwhole : m * 2 ^ s = whole * 2 ^ t) (hlimit : whole < Nat.pow 2 96) :
    Scaled.ofPowerOfTwo? m ((s : Int) - 1074) = some ⟨whole, 0⟩ := by
  rcases Nat.lt_or_ge t s with habove | hbelow
  · obtain ⟨k, hk, rfl⟩ : ∃ k, 0 < k ∧ s = k + t := ⟨s - t, by omega, by omega⟩
    have hexponent : ((k + t : Nat) : Int) - 1074 = k := by omega
    have hvalue : m * 2 ^ k = whole := by
      rw [pow_add, ← Nat.mul_assoc] at hwhole
      exact Nat.eq_of_mul_eq_mul_right (Nat.pow_pos (by decide)) hwhole
    rw [hexponent, Scaled.ofPowerOfTwo?_above hc.1 hk, hvalue, if_pos hlimit]
  · obtain ⟨k, rfl⟩ := Nat.exists_eq_add_of_le hbelow
    have hvalue : m = whole * 2 ^ k := by
      rw [pow_add, Nat.mul_comm (2 ^ s), ← Nat.mul_assoc] at hwhole
      exact Nat.eq_of_mul_eq_mul_right (Nat.pow_pos (by decide)) hwhole
    have hcount : (-((s : Int) - 1074)).toNat = k := by omega
    rw [Scaled.ofPowerOfTwo?, if_pos (by omega), hcount, hvalue, Scaled.timesFives_whole]
    congr 2
    omega

/-- **Whole numbers through doubles.** A double that is a whole number becomes that number. -/
theorem exists_toRat_eq_whole (negative : Bool) {m s whole : Nat} (hc : Canonical m s)
    (hwhole : m * Nat.pow 2 s = whole * Binary64.unitsPerOne) (hlimit : whole < Nat.pow 2 96) :
    ∃ d, ofBinary64? (.finite negative m s hc) = some d ∧ d.toRat = withSign negative whole := by
  obtain ⟨t, ht⟩ : ∃ t, t = 1074 := ⟨_, rfl⟩
  rw [unitsPerOne_eq_pow ht, Nat.pow_eq] at hwhole
  rcases Nat.eq_zero_or_pos m with hzero | hpos
  · have hnone : whole = 0 := by
      rw [hzero, Nat.zero_mul] at hwhole
      exact (Nat.mul_eq_zero.1 hwhole.symm).resolve_right (Nat.pow_pos (by decide)).ne'
    rw [hnone, Nat.cast_zero]
    exact exists_ofBinary64?_zero negative hc hzero
  · obtain ⟨d, hd, hrat⟩ := Scaled.toDecimal?_eq_some (x := ⟨whole, 0⟩) negative hlimit (le_refl _)
    refine ⟨d, ?_, ?_⟩
    · rw [ofBinary64?, if_neg (by omega), ofPowerOfTwo?_whole hc ht hwhole hlimit,
        Option.bind_some, hd]
    · rw [hrat, Scaled.settled_whole, Scaled.value, zpow_zero, mul_one]

/-! ## Every double -/

theorem abs_withSign_sub (negative : Bool) (a b : ℚ) :
    |withSign negative a - withSign negative b| = |a - b| := by
  cases negative with
  | false => rfl
  | true =>
      change |-a - -b| = |a - b|
      rw [neg_sub_neg, abs_sub_comm]

/-- The signed number of units of a finite double. -/
theorem cast_units_finite {negative : Bool} {m s : Nat} {hc : Canonical m s} {u : Int}
    (hu : (Binary64.finite negative m s hc).units? = some u) :
    (u / Binary64.unitsPerOne : ℚ) =
      withSign negative ((m * Nat.pow 2 s : Nat) / Binary64.unitsPerOne) := by
  rw [Binary64.units?] at hu
  rw [← Option.some.inj hu, withSign]
  cases negative with
  | false => rw [if_neg Bool.false_ne_true, if_neg Bool.false_ne_true, Int.cast_natCast]
  | true => rw [if_pos rfl, if_pos rfl, Int.cast_neg, Int.cast_natCast, neg_div]

/-- Above `2 ^ 53` a double is a whole number. -/
theorem exists_toRat_eq_of_lt {negative : Bool} {m s t : Nat} {hc : Canonical m s} (ht : t = 1074)
    (hs : t < s) {d : Decimal} (hd : ofBinary64? (.finite negative m s hc) = some d) :
    d.toRat = withSign negative ((m * Nat.pow 2 s : Nat) / Binary64.unitsPerOne) := by
  obtain ⟨k, rfl⟩ := Nat.exists_eq_add_of_le hs.le
  have hwhole : m * Nat.pow 2 (t + k) = m * 2 ^ k * Binary64.unitsPerOne := by
    rw [unitsPerOne_eq_pow ht, Nat.pow_eq, pow_add]
    ring
  have hlimit := (exists_ofBinary64?_finite_iff negative hc).1 ⟨d, hd⟩
  rw [hwhole, decimalUnitsLimit] at hlimit
  obtain ⟨d', hd', hrat⟩ := exists_toRat_eq_whole negative hc hwhole
    (Nat.lt_of_mul_lt_mul_right hlimit)
  obtain rfl := Option.some.inj (hd.symm.trans hd')
  rw [hrat, hwhole, Nat.cast_mul _ Binary64.unitsPerOne,
    mul_div_cancel_right₀ _ (Nat.cast_pos.2 Binary64.unitsPerOne_pos).ne']

theorem abs_withSign {v : ℚ} (negative : Bool) (hv : 0 ≤ v) : |withSign negative v| = v := by
  cases negative with
  | false => exact abs_of_nonneg hv
  | true => exact (abs_neg v).trans (abs_of_nonneg hv)

/-- **How near the decimal of a double is.** It is away by the part `2⁻⁴⁹` of the double at most,
and one step `10⁻²⁸`. -/
theorem abs_toRat_sub_le {x : Binary64} {d : Decimal} {u : Int} (hd : ofBinary64? x = some d)
    (hu : x.units? = some u) :
    |d.toRat - u / Binary64.unitsPerOne| ≤
      |(u / Binary64.unitsPerOne : ℚ)| / 2 ^ 49 + 1 / 10 ^ 28 := by
  cases x with
  | infinite => cases hd
  | nan => cases hd
  | finite negative m s hc =>
      obtain ⟨t, ht⟩ : ∃ t, t = 1074 := ⟨_, rfl⟩
      have hnonneg : (0 : ℚ) ≤ (m * Nat.pow 2 s : Nat) / Binary64.unitsPerOne :=
        div_nonneg (Nat.cast_nonneg _) (Nat.cast_nonneg _)
      rw [cast_units_finite hu, abs_withSign negative hnonneg]
      rcases Nat.lt_or_ge t s with habove | hbelow
      · rw [exists_toRat_eq_of_lt ht habove hd, sub_self, abs_zero]
        exact add_nonneg (div_nonneg hnonneg (by norm_num)) (by norm_num)
      rcases Nat.eq_zero_or_pos m with hzero | hpos
      · obtain ⟨d', hd', hrat⟩ := exists_ofBinary64?_zero negative hc hzero
        obtain rfl := Option.some.inj (hd.symm.trans hd')
        rw [hrat, abs_withSign_sub, hzero, Nat.zero_mul, Nat.cast_zero, zero_div, zero_div,
          sub_self, abs_zero]
        norm_num
      obtain ⟨y, d', hspec, hexponent, hd', hrat⟩ :=
        exists_ofBinary64?_below negative hc ht hbelow hpos
      obtain rfl := Option.some.inj (hd.symm.trans hd')
      have hvalue : Scaled.value ⟨m, (s : Int) - t⟩ * 5 ^ (t - s) =
          (m * Nat.pow 2 s : Nat) / Binary64.unitsPerOne := by
        rw [unitsPerOne_eq_pow ht, Nat.cast_pow, Nat.cast_ofNat, eq_div_iff (by positivity),
          value_units hbelow]
        simp
      have hlower := hspec.loss (by omega)
      have hupper := hspec.value_le
      rw [hvalue] at hlower hupper
      obtain ⟨hlow, hhigh⟩ := abs_le.1 (Scaled.abs_settled_sub_le hexponent)
      rw [hrat, abs_withSign_sub, abs_le]
      generalize ((m * Nat.pow 2 s : Nat) : ℚ) / Binary64.unitsPerOne = w at *
      constructor
      · linarith
      · linarith

end Criteria.Number.Decimal
