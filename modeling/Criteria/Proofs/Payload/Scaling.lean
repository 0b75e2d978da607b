import Criteria.Proofs.Number.Nearest
import Criteria.Proofs.Number.Shortest
import Criteria.Proofs.Payload.Range

set_option autoImplicit false

/-! # Scaling by powers of ten

A significand is scaled in one product or one quotient of doubles, or in two quotients where the
power is beyond `maxPower`. Each of the doubles is rounded, and so is each result (`scaledTo`). If
the exact number is in the interval of a double, less than four of its steps lie between the result
and that double (`abs_scaledTo_sub_lt`); and there is no difference if significand and power of ten
are doubles themselves (`scaledTo_eq`). -/

namespace Criteria.Number.Binary64

/-! ## Quotients of doubles -/

/-- The quotient of two finite doubles is rounded once. -/
theorem HasUnits.div {x y : Binary64} {negative sign : Bool} {units divisor : Nat}
    (hx : HasUnits x negative units) (hy : HasUnits y sign divisor) (hunits : units < unitsLimit)
    (hdivisor : divisor < unitsLimit) (hpos : 0 < divisor) :
    HasUnits (x.div y) (negative != sign) (roundedUnits (units * unitsPerOne) divisor) := by
  obtain ⟨m, s, hc, rfl, rfl⟩ := hx.exists_finite hunits
  obtain ⟨m', s', hc', rfl, rfl⟩ := hy.exists_finite hdivisor
  have hne : m' ≠ 0 := by
    rintro rfl
    simp at hpos
  rw [Binary64.div, if_neg hne]
  exact hasUnits_round (negative != sign) hpos _

/-! ## Relative errors -/

section

variable {a A b B u v : ℚ}

theorem abs_mul_sub_le (hA : 0 ≤ A) (hB : 0 ≤ B) (hu : 0 ≤ u) (hsmall : u ≤ 1 / 1000)
    (ha : |a - A| ≤ u * A) (hb : |b - B| ≤ u * B) :
    |a * b - A * B| ≤ 11 / 5 * u * (A * B) := by
  have hAB := mul_nonneg hA hB
  have hproduct : |a - A| * |b - B| ≤ u * A * (u * B) :=
    mul_le_mul ha hb (abs_nonneg _) (mul_nonneg hu hA)
  have hleft : |a - A| * B ≤ u * A * B := mul_le_mul_of_nonneg_right ha hB
  have hright : A * |b - B| ≤ A * (u * B) := mul_le_mul_of_nonneg_left hb hA
  have husq : u * u * (A * B) ≤ 1 / 1000 * u * (A * B) :=
    mul_le_mul_of_nonneg_right (mul_le_mul_of_nonneg_right hsmall hu) hAB
  have hutimes : 0 ≤ u * (A * B) := mul_nonneg hu hAB
  calc |a * b - A * B| = |(a - A) * (b - B) + ((a - A) * B + A * (b - B))| := by
        congr 1
        ring
    _ ≤ |(a - A) * (b - B)| + (|(a - A) * B| + |A * (b - B)|) :=
        le_trans (abs_add_le _ _) (add_le_add_right (abs_add_le _ _) _)
    _ = |a - A| * |b - B| + (|a - A| * B + A * |b - B|) := by
        rw [abs_mul, abs_mul, abs_mul, abs_of_nonneg hA, abs_of_nonneg hB]
    _ ≤ 11 / 5 * u * (A * B) := by
        linarith only [hproduct, hleft, hright, husq, hutimes]

theorem abs_div_sub_le (hA : 0 ≤ A) (hB : 0 < B) (hv : v ≤ 1 / 1000) (huv : 0 ≤ u + v)
    (ha : |a - A| ≤ u * A) (hb : |b - B| ≤ v * B) :
    |a / b - A / B| ≤ 101 / 100 * (u + v) * (A / B) := by
  have hlower : 999 / 1000 * B ≤ b := by
    have hmul := mul_le_mul_of_nonneg_right hv hB.le
    linarith only [hmul, (abs_le.1 hb).1]
  have hbpos : 0 < b := lt_of_lt_of_le (by positivity) hlower
  have hnumerator : |a * B - A * b| ≤ (u + v) * (A * B) := by
    have hleft : |a - A| * B ≤ u * A * B := mul_le_mul_of_nonneg_right ha hB.le
    have hright : A * |b - B| ≤ A * (v * B) := mul_le_mul_of_nonneg_left hb hA
    calc |a * B - A * b| = |(a - A) * B - A * (b - B)| := by
          congr 1
          ring
      _ ≤ |(a - A) * B| + |A * (b - B)| := abs_sub _ _
      _ = |a - A| * B + A * |b - B| := by
          rw [abs_mul, abs_mul, abs_of_nonneg hA, abs_of_pos hB]
      _ ≤ (u + v) * (A * B) := by linarith only [hleft, hright]
  have hquotient : a / b - A / B = (a * B - A * b) / (b * B) := by
    field_simp
  rw [hquotient, abs_div, abs_of_pos (mul_pos hbpos hB), div_le_iff₀ (mul_pos hbpos hB)]
  refine le_trans hnumerator ?_
  have hfactor : 0 ≤ (u + v) * A := mul_nonneg huv hA
  have hle := mul_le_mul_of_nonneg_left hlower hfactor
  have heq : 101 / 100 * (u + v) * (A / B) * (b * B) = 101 / 100 * ((u + v) * A * b) := by
    field_simp
  rw [heq]
  linarith only [hle, mul_nonneg hfactor hB.le]

end

theorem roundoff_pos : 0 < roundoff := by
  rw [roundoff]
  positivity

theorem roundoff_le : roundoff ≤ 1 / 1000 := by
  rw [roundoff]
  norm_num

theorem cast_unitsPerOne_pos : (0 : ℚ) < unitsPerOne := Nat.cast_pos.2 unitsPerOne_pos

theorem unitsPerOne_eq {j k : Nat} (h : j + k = 1074) : unitsPerOne = 2 ^ j * 2 ^ k := by
  unfold unitsPerOne
  rw [← h, Nat.pow_eq, Nat.pow_add]

/-- A whole number is rounded by a small part of it. -/
theorem abs_unitsOf_sub_le (n : Nat) :
    |(unitsOf n : ℚ) - n * unitsPerOne| ≤ roundoff * (n * unitsPerOne) := by
  rcases Nat.eq_zero_or_pos n with rfl | hn
  · rw [unitsOf_zero, Nat.cast_zero, zero_mul, mul_zero, sub_zero, abs_zero]
  · have hexact : (n * unitsPerOne : ℚ) = (n * unitsPerOne : Nat) / (1 : Nat) := by
      push_cast
      ring
    have hround := abs_roundedUnits_sub_le Nat.one_pos hexact
    refine le_trans hround (max_le ?_ (le_refl _))
    -- one has enough units
    have hunits : (2 ^ 53 : Nat) ≤ n * unitsPerOne := by
      obtain ⟨k, hk⟩ : ∃ k, 53 + k = 1074 := ⟨1021, rfl⟩
      have hone : 2 ^ 53 ≤ unitsPerOne := by
        rw [unitsPerOne_eq hk]
        exact Nat.le_mul_of_pos_right _ (Nat.pow_pos (by decide))
      exact Nat.le_trans hone (Nat.le_mul_of_pos_left _ hn)
    have hcast := (Nat.cast_le (α := ℚ)).2 hunits
    push_cast at hcast
    rw [roundoff]
    linarith

theorem unitsOf_mul_pow_of_lt {n : Nat} (hpos : 0 < n) (hlt : n < 2 ^ 53) (j : Nat) :
    unitsOf (n * 2 ^ j) = n * 2 ^ j * unitsPerOne := by
  have hne : n ≠ 0 := by omega
  have hlog : n.log2 ≤ 52 := by
    have := (Nat.log2_lt hne).2 hlt
    omega
  have hunits : n * 2 ^ j * unitsPerOne = n * 2 ^ (52 - n.log2) * 2 ^ (n.log2 + 1022 + j) := by
    rw [unitsPerOne_eq (show 52 - n.log2 + (n.log2 + 1022) = 1074 by omega),
      Nat.mul_mul_mul_comm, Nat.mul_comm (2 ^ j), ← Nat.pow_add]
  have hupper : n * 2 ^ (52 - n.log2) < 2 ^ 53 := by
    calc n * 2 ^ (52 - n.log2) < 2 ^ (n.log2 + 1) * 2 ^ (52 - n.log2) :=
          Nat.mul_lt_mul_of_pos_right Nat.lt_log2_self (by positivity)
      _ = 2 ^ 53 := by rw [← Nat.pow_add, show n.log2 + 1 + (52 - n.log2) = 53 by omega]
  have hlower : 2 ^ 52 ≤ n * 2 ^ (52 - n.log2) := by
    calc 2 ^ 52 = 2 ^ n.log2 * 2 ^ (52 - n.log2) := by
          rw [← Nat.pow_add, show n.log2 + (52 - n.log2) = 52 by omega]
      _ ≤ n * 2 ^ (52 - n.log2) := Nat.mul_le_mul_right _ (Nat.log2_self_le hne)
  rw [unitsOf, hunits]
  generalize n * 2 ^ (52 - n.log2) = r at hupper hlower
  generalize n.log2 + 1022 + j = s
  have hstep : (0 : ℚ) < 2 ^ s := by positivity
  have hupperCast : (r : ℚ) < 2 ^ 53 := by exact_mod_cast hupper
  have hlowerCast : (2 ^ 52 : ℚ) ≤ r := by exact_mod_cast hlower
  refine roundedUnits_eq (t := r * 2 ^ s) Nat.one_pos (by push_cast; ring) ?_ ?_ ?_ ?_ ?_
  · exact mul_lt_mul_of_pos_right hupperCast hstep
  · intro _
    exact mul_le_mul_of_nonneg_right hlowerCast hstep.le
  · linarith
  · linarith
  · intro _
    exact ⟨by linarith, by linarith⟩

/-- The whole numbers up to `2 ^ 53` are doubles, and so are their products with powers of two. -/
theorem unitsOf_mul_pow {n : Nat} (h : n ≤ 2 ^ 53) (j : Nat) :
    unitsOf (n * 2 ^ j) = n * 2 ^ j * unitsPerOne := by
  rcases Nat.eq_zero_or_pos n with rfl | hn
  · rw [Nat.zero_mul, Nat.zero_mul, unitsOf_zero]
  rcases Nat.eq_or_lt_of_le h with rfl | hlt
  · have hhalf : 2 ^ 53 * 2 ^ j = 2 ^ 52 * 2 ^ (j + 1) := by ring
    rw [hhalf, unitsOf_mul_pow_of_lt (by decide) (by decide)]
  · exact unitsOf_mul_pow_of_lt hn hlt j

theorem unitsOf_eq {n : Nat} (h : n ≤ 2 ^ 53) : unitsOf n = n * unitsPerOne := by
  have hunits := unitsOf_mul_pow h 0
  rwa [Nat.pow_zero, Nat.mul_one] at hunits

/-- The powers of ten up to the twenty-second are doubles. -/
theorem unitsOf_pow_ten {k : Nat} (h : k ≤ 22) :
    unitsOf (Nat.pow 10 k) = Nat.pow 10 k * unitsPerOne := by
  have hfives : 5 ^ k ≤ 2 ^ 53 := Nat.le_trans (Nat.pow_le_pow_right (by decide) h) (by decide)
  have hten : Nat.pow 10 k = 5 ^ k * 2 ^ k := Nat.mul_pow 5 2 k
  rw [hten, unitsOf_mul_pow hfives]

end Criteria.Number.Binary64

namespace Criteria.Payload

open Number Binary64

/-! ## Scaling -/

/-- The number of units of a quotient by a power of ten. -/
def quotientUnits (units power : Nat) : Nat :=
  roundedUnits (units * unitsPerOne) (unitsOf (Nat.pow 10 power))

/-- The number of units that a significand is scaled to. -/
def scaledTo (significand : Nat) (exponent : Int) : Nat :=
  if 0 ≤ exponent then scaledUnits significand exponent.natAbs
  else if exponent.natAbs ≤ maxPower then quotientUnits (unitsOf significand) exponent.natAbs
  else quotientUnits (quotientUnits (unitsOf significand) maxPower) (exponent + maxPower).natAbs

theorem unitsOf_pow_pos (k : Nat) : 0 < unitsOf (Nat.pow 10 k) := by
  have hone : 0 < unitsOf 1 := by
    rw [unitsOf_eq (by decide), Nat.one_mul]
    exact unitsPerOne_pos
  exact Nat.lt_of_lt_of_le hone (unitsOf_mono (Nat.pow_pos (by decide)))

theorem hasUnits_quotient {x : Binary64} {units power : Nat} (hx : HasUnits x false units)
    (hunits : units < unitsLimit) (hpower : power ≤ maxPower) :
    HasUnits (x.div (powerOfTen power)) false (quotientUnits units power) :=
  hx.div (hasUnits_ofNat (Nat.pow 10 power)) hunits (unitsOf_pow_lt hpower) (unitsOf_pow_pos power)

section

variable {significand : Nat} {exponent : Int} {x : Binary64}

/-- The double that scaling comes to. -/
theorem hasUnits_of_scaleByTen? (hsignificand : significand < UInt64.size)
    (hpos : exponent < -maxPower → 0 < significand) (hleast : -324 ≤ exponent)
    (hmost : exponent ≤ maxPower)
    (h : scaleByTen? 4 (ofNat significand) exponent = some x) :
    HasUnits x false (scaledTo significand exponent) := by
  have hlimit := unitsOf_significand_lt hsignificand
  have hmax : maxPower = 308 := rfl
  rw [scaleByTen?] at h
  rw [scaledTo]
  by_cases hup : 0 ≤ exponent
  · have hpower : exponent.natAbs ≤ maxPower := by omega
    rw [if_pos hpower, if_pos hup] at h
    rw [if_pos hup]
    obtain ⟨hx, -⟩ := Option.filter_eq_some_iff.1 h
    rw [← Option.some.inj hx]
    exact hasUnits_scaled hsignificand hpower
  · rw [if_neg hup]
    by_cases hpower : exponent.natAbs ≤ maxPower
    · rw [if_pos hpower, if_neg hup] at h
      rw [if_pos hpower, ← Option.some.inj h]
      exact hasUnits_quotient (hasUnits_ofNat significand) hlimit hpower
    · have hzero := isZero_ofNat (hpos (by omega)) hsignificand
      rw [if_neg hpower, hzero, if_neg (by decide), if_neg hup,
        scaleByTen?, if_pos (by omega), if_neg (by omega)] at h
      rw [if_neg hpower, ← Option.some.inj h]
      -- the first quotient is far below the largest double
      have hfirst : quotientUnits (unitsOf significand) maxPower < unitsLimit := by
        have hlargest : quotientUnits (unitsOf UInt64.size) maxPower < unitsLimit := by
          decide +kernel
        refine Nat.lt_of_le_of_lt (roundedUnits_mono (unitsOf_pow_pos maxPower) ?_) hlargest
        exact Nat.mul_le_mul_right _ (unitsOf_mono (Nat.le_of_lt hsignificand))
      have hquotient := hasUnits_quotient (hasUnits_ofNat significand) hlimit (Nat.le_refl maxPower)
      exact hasUnits_quotient hquotient hfirst (by omega)

end

/-! ## The error of scaling -/

theorem decimalUnits_natCast (digits k : Nat) :
    decimalUnits digits (k : Int) = digits * 10 ^ k * unitsPerOne := by
  rw [decimalUnits, zpow_natCast]

theorem decimalUnits_neg (digits k : Nat) :
    decimalUnits digits (-(k : Int)) = digits * unitsPerOne / 10 ^ k := by
  rw [decimalUnits, zpow_neg, zpow_natCast]
  ring

theorem cast_pow_ten (k : Nat) : ((Nat.pow 10 k : Nat) : ℚ) = 10 ^ k := by
  rw [Nat.pow_eq]
  push_cast
  rfl

/-- The factors of a product and the divisors of a quotient are rounded powers of ten. -/
theorem abs_unitsOf_pow_sub_le (k : Nat) :
    |(unitsOf (Nat.pow 10 k) : ℚ) - 10 ^ k * unitsPerOne| ≤
      roundoff * (10 ^ k * unitsPerOne) := by
  have h := abs_unitsOf_sub_le (Nat.pow 10 k)
  rwa [cast_pow_ten] at h

/-- The greatest power of ten is rounded by less than most. -/
theorem abs_unitsOf_maxPower_sub_le :
    |(unitsOf (Nat.pow 10 maxPower) : ℚ) - 10 ^ maxPower * unitsPerOne| ≤
      roundoff / 8 * (10 ^ maxPower * unitsPerOne) := by
  have hlow : 2 ^ 56 * (Nat.pow 10 maxPower * unitsPerOne) ≤
      2 ^ 56 * unitsOf (Nat.pow 10 maxPower) + Nat.pow 10 maxPower * unitsPerOne := by
    decide +kernel
  have hhigh : 2 ^ 56 * unitsOf (Nat.pow 10 maxPower) ≤
      2 ^ 56 * (Nat.pow 10 maxPower * unitsPerOne) + Nat.pow 10 maxPower * unitsPerOne := by
    decide +kernel
  have hlowCast := (Nat.cast_le (α := ℚ)).2 hlow
  have hhighCast := (Nat.cast_le (α := ℚ)).2 hhigh
  rw [Nat.cast_add, Nat.cast_mul, Nat.cast_mul, Nat.cast_mul, cast_pow_ten] at hlowCast hhighCast
  rw [roundoff, abs_le]
  generalize (10 : ℚ) ^ maxPower * unitsPerOne = exact at hlowCast hhighCast ⊢
  generalize (unitsOf (Nat.pow 10 maxPower) : ℚ) = rounded at hlowCast hhighCast ⊢
  norm_num at hlowCast hhighCast ⊢
  constructor
  · linarith
  · linarith

section

variable {m s significand num den : Nat} {exponent : Int} {t x : ℚ}

/-- The last rounding, of a number near one in the interval of a double. -/
theorem abs_roundedUnits_sub_lt (hm : m < 2 ^ 53) (hcovers : Covers m s t) (hden : 0 < den)
    (hx : x = num / den) (hnear : |x - t| ≤ 11 / 5 * roundoff * t + 1 / 20) :
    |(roundedUnits num den : ℚ) - m * 2 ^ s| < 4 * 2 ^ s := by
  have hstep : (1 : ℚ) ≤ 2 ^ s := one_le_pow₀ (by norm_num)
  have hbinade := hcovers.lt_pow hm
  have hinterval := hcovers.abs_sub_le
  have hround := abs_roundedUnits_sub_le hden hx
  have hpart : roundoff * t < 2 ^ s := by
    rw [roundoff, one_div, ← div_eq_inv_mul, div_lt_iff₀ (by positivity), mul_comm]
    exact hbinade
  have hxle : x ≤ t + (11 / 5 * 2 ^ s + 1 / 20) := by linarith [(abs_le.1 hnear).2]
  -- what is rounded last is moved by little more than a step
  have hlast : max (1 / 2) (roundoff * x) ≤ 101 / 100 * 2 ^ s := by
    refine max_le (by linarith) ?_
    have hmul := mul_le_mul_of_nonneg_left hxle roundoff_pos.le
    have hsmall := mul_le_mul_of_nonneg_right roundoff_le
      (show (0 : ℚ) ≤ 11 / 5 * 2 ^ s + 1 / 20 by linarith)
    linarith
  calc |(roundedUnits num den : ℚ) - m * 2 ^ s|
      = |(roundedUnits num den - x) + ((x - t) + (t - m * 2 ^ s))| := by
        rw [sub_add_sub_cancel, sub_add_sub_cancel]
    _ ≤ |roundedUnits num den - x| + (|x - t| + |t - m * 2 ^ s|) :=
        le_trans (abs_add_le _ _) (add_le_add_right (abs_add_le _ _) _)
    _ < 4 * 2 ^ s := by linarith

theorem quotient_near {a A : ℚ} {k : Nat} {u v : ℚ} (hA : 0 ≤ A) (hv : v ≤ 1 / 1000)
    (huv : 0 ≤ u + v) (ha : |a - A| ≤ u * A)
    (hten : |(unitsOf (Nat.pow 10 k) : ℚ) - 10 ^ k * unitsPerOne| ≤
      v * (10 ^ k * unitsPerOne)) :
    |a * unitsPerOne / unitsOf (Nat.pow 10 k) - A / 10 ^ k| ≤
      101 / 100 * (u + v) * (A / 10 ^ k) := by
  have hpos := cast_unitsPerOne_pos
  have hdiv := abs_div_sub_le hA (by positivity) hv huv ha hten
  have hmul := mul_le_mul_of_nonneg_right hdiv hpos.le
  have hcancel : A / (10 ^ k * unitsPerOne) * unitsPerOne = A / 10 ^ k := by
    field_simp
  rw [← abs_of_pos hpos, ← abs_mul, abs_of_pos hpos, sub_mul, hcancel, mul_assoc, hcancel] at hmul
  rwa [mul_comm a, mul_div_assoc, mul_comm (unitsPerOne : ℚ)]

/-- The error of one product. -/
theorem abs_scaledUnits_sub_lt (hm : m < 2 ^ 53) {k : Nat}
    (hcovers : Covers m s (decimalUnits significand (k : Int))) :
    |(scaledUnits significand k : ℚ) - m * 2 ^ s| < 4 * 2 ^ s := by
  have hone := cast_unitsPerOne_pos
  have hA : (0 : ℚ) ≤ significand * unitsPerOne := mul_nonneg (Nat.cast_nonneg _) hone.le
  have hB : (0 : ℚ) ≤ 10 ^ k * unitsPerOne := mul_nonneg (by positivity) hone.le
  have hmul := abs_mul_sub_le hA hB roundoff_pos.le roundoff_le (abs_unitsOf_sub_le significand)
    (abs_unitsOf_pow_sub_le k)
  rw [scaledUnits]
  refine abs_roundedUnits_sub_lt hm hcovers unitsPerOne_pos rfl ?_
  have hexact : (significand : ℚ) * 10 ^ k * unitsPerOne =
      significand * unitsPerOne * (10 ^ k * unitsPerOne) / unitsPerOne := by
    field_simp
  rw [decimalUnits_natCast, hexact, Nat.cast_mul, ← sub_div, abs_div, abs_of_pos hone,
    div_le_iff₀ hone]
  refine le_trans hmul ?_
  have hcancel : 11 / 5 * roundoff * (significand * unitsPerOne * (10 ^ k * unitsPerOne) /
      unitsPerOne) * unitsPerOne =
        11 / 5 * roundoff * (significand * unitsPerOne * (10 ^ k * (unitsPerOne : ℚ))) := by
    field_simp
  rw [add_mul, hcancel]
  linarith

/-- The error of one quotient. -/
theorem abs_quotientUnits_sub_lt (hm : m < 2 ^ 53) {k : Nat}
    (hcovers : Covers m s (significand * unitsPerOne / 10 ^ k)) :
    |(quotientUnits (unitsOf significand) k : ℚ) - m * 2 ^ s| < 4 * 2 ^ s := by
  have hpart := roundoff_pos
  have hA : (0 : ℚ) ≤ significand * unitsPerOne :=
    mul_nonneg (Nat.cast_nonneg _) cast_unitsPerOne_pos.le
  have hnear := quotient_near hA roundoff_le (by linarith) (abs_unitsOf_sub_le significand)
    (abs_unitsOf_pow_sub_le k)
  rw [quotientUnits]
  refine abs_roundedUnits_sub_lt hm hcovers (unitsOf_pow_pos k) rfl ?_
  have hT : (0 : ℚ) ≤ significand * unitsPerOne / 10 ^ k := div_nonneg hA (by positivity)
  have hpartT := mul_nonneg hpart.le hT
  rw [Nat.cast_mul]
  refine le_trans hnear ?_
  linarith

/-- The first of two quotients, which may be a subnormal double. -/
theorem abs_quotientUnits_maxPower_sub_le {T : ℚ}
    (hT : T = significand * unitsPerOne / 10 ^ maxPower) :
    |(quotientUnits (unitsOf significand) maxPower : ℚ) - T| ≤
      11 / 5 * (roundoff * T) + 1 / 2 := by
  have hpart := roundoff_pos
  have hsmall := roundoff_le
  have hA : (0 : ℚ) ≤ significand * unitsPerOne :=
    mul_nonneg (Nat.cast_nonneg _) cast_unitsPerOne_pos.le
  have hnear := quotient_near hA (show roundoff / 8 ≤ 1 / 1000 by linarith) (by linarith)
    (abs_unitsOf_sub_le significand) abs_unitsOf_maxPower_sub_le
  have hround : |(quotientUnits (unitsOf significand) maxPower : ℚ) - _| ≤ _ :=
    abs_roundedUnits_sub_le (unitsOf_pow_pos maxPower) rfl
  have hTpos : 0 ≤ T := hT ▸ div_nonneg hA (by positivity)
  rw [Nat.cast_mul] at hround
  rw [← hT] at hnear
  generalize (quotientUnits (unitsOf significand) maxPower : ℚ) = first at hround ⊢
  generalize (unitsOf significand : ℚ) * unitsPerOne / unitsOf (Nat.pow 10 maxPower) = x
    at hnear hround
  have hpartT := mul_nonneg hpart.le hTpos
  have hxle : x ≤ T + 2 * (roundoff * T) := by linarith [(abs_le.1 hnear).2]
  have hrounded : max (1 / 2) (roundoff * x) ≤ 1 / 2 + 101 / 100 * (roundoff * T) := by
    refine max_le (by linarith) ?_
    have hmul := mul_le_mul_of_nonneg_left hxle hpart.le
    have hsquare := mul_le_mul_of_nonneg_right hsmall hpartT
    linarith
  calc |first - T| = |(first - x) + (x - T)| := by rw [sub_add_sub_cancel]
    _ ≤ |first - x| + |x - T| := abs_add_le _ _
    _ ≤ 11 / 5 * (roundoff * T) + 1 / 2 := by linarith

/-- The error of two quotients, the second of them by a power of ten that is a double. -/
theorem abs_quotientUnits_twice_sub_lt (hm : m < 2 ^ 53) {j : Nat} (hpos : 0 < j) (hj : j ≤ 22)
    (hcovers : Covers m s (significand * unitsPerOne / 10 ^ (maxPower + j))) :
    |(quotientUnits (quotientUnits (unitsOf significand) maxPower) j : ℚ) - m * 2 ^ s| <
      4 * 2 ^ s := by
  have hone := cast_unitsPerOne_pos
  rw [pow_add, ← div_div] at hcovers
  obtain ⟨T, hT⟩ : ∃ T : ℚ, T = significand * unitsPerOne / 10 ^ maxPower := ⟨_, rfl⟩
  have hfirst := abs_quotientUnits_maxPower_sub_le hT
  rw [← hT] at hcovers
  generalize quotientUnits (unitsOf significand) maxPower = first at hfirst ⊢
  rw [quotientUnits]
  refine abs_roundedUnits_sub_lt hm hcovers (unitsOf_pow_pos j) rfl ?_
  have hlast : ((first * unitsPerOne : Nat) : ℚ) / unitsOf (Nat.pow 10 j) = first / 10 ^ j := by
    rw [unitsOf_pow_ten hj, Nat.cast_mul, Nat.cast_mul, cast_pow_ten,
      mul_div_mul_right _ _ hone.ne']
  have hten : (10 : ℚ) ^ 1 ≤ 10 ^ j := pow_le_pow_right₀ (by norm_num) hpos
  have hcancel : 11 / 5 * roundoff * (T / 10 ^ j) * 10 ^ j = 11 / 5 * (roundoff * T) := by
    field_simp
  rw [hlast, ← sub_div, abs_div, abs_of_pos (show (0 : ℚ) < 10 ^ j by positivity),
    div_le_iff₀ (by positivity), add_mul, hcancel]
  linarith

/-- Less than four steps lie between a double and what its digits are scaled to. -/
theorem abs_scaledTo_sub_lt (hm : m < 2 ^ 53) (hleast : -324 ≤ exponent)
    (hcovers : Covers m s (decimalUnits significand exponent)) :
    |(scaledTo significand exponent : ℚ) - m * 2 ^ s| < 4 * 2 ^ s := by
  rw [scaledTo]
  by_cases hup : 0 ≤ exponent
  · obtain ⟨k, rfl⟩ := Int.eq_ofNat_of_zero_le hup
    rw [if_pos hup]
    exact abs_scaledUnits_sub_lt hm hcovers
  · obtain ⟨k, hk⟩ := Int.exists_eq_neg_ofNat (show exponent ≤ 0 by omega)
    subst hk
    rw [if_neg hup, Int.natAbs_neg, Int.natAbs_natCast]
    rw [decimalUnits_neg] at hcovers
    by_cases hpower : k ≤ maxPower
    · rw [if_pos hpower]
      exact abs_quotientUnits_sub_lt hm hcovers
    · have hmax : maxPower = 308 := rfl
      obtain ⟨j, rfl⟩ := Nat.exists_eq_add_of_le (Nat.le_of_not_le hpower)
      have hj : (-((maxPower + j : Nat) : Int) + maxPower).natAbs = j := by omega
      rw [if_neg hpower, hj]
      exact abs_quotientUnits_twice_sub_lt hm (by omega) (by omega) hcovers

/-- Where significand and power of ten are doubles, only the result is rounded. -/
theorem exists_scaledTo_eq_roundedUnits (hsignificand : significand ≤ 2 ^ 53)
    (hexponent : exponent.natAbs ≤ 22) :
    ∃ num den, 0 < den ∧ scaledTo significand exponent = roundedUnits num den ∧
      decimalUnits significand exponent = num / den := by
  have hone := cast_unitsPerOne_pos
  have hmax : maxPower = 308 := rfl
  rw [scaledTo]
  by_cases hup : 0 ≤ exponent
  · obtain ⟨k, rfl⟩ := Int.eq_ofNat_of_zero_le hup
    rw [Int.natAbs_natCast] at hexponent ⊢
    rw [if_pos hup, scaledUnits, unitsOf_eq hsignificand, unitsOf_pow_ten hexponent]
    refine ⟨_, _, unitsPerOne_pos, rfl, ?_⟩
    rw [decimalUnits_natCast, Nat.cast_mul, Nat.cast_mul, Nat.cast_mul, cast_pow_ten,
      ← mul_assoc, mul_div_cancel_right₀ _ hone.ne', mul_right_comm]
  · obtain ⟨k, hk⟩ := Int.exists_eq_neg_ofNat (show exponent ≤ 0 by omega)
    subst hk
    rw [Int.natAbs_neg, Int.natAbs_natCast] at hexponent ⊢
    rw [if_neg hup, if_pos (by omega), quotientUnits, unitsOf_eq hsignificand,
      unitsOf_pow_ten hexponent]
    refine ⟨_, _, Nat.mul_pos (Nat.pow_pos (by decide)) unitsPerOne_pos, rfl, ?_⟩
    rw [decimalUnits_neg, Nat.cast_mul, Nat.cast_mul, Nat.cast_mul, Nat.cast_pow, Nat.cast_ofNat,
      mul_div_mul_right _ _ hone.ne']

/-- There the result is the double that the digits belong to. -/
theorem scaledTo_eq (hc : Canonical m s) (hsignificand : significand ≤ 2 ^ 53)
    (hexponent : exponent.natAbs ≤ 22)
    (hcovers : Covers m s (decimalUnits significand exponent)) :
    scaledTo significand exponent = m * 2 ^ s := by
  obtain ⟨num, den, hden, hscaled, hunits⟩ :=
    exists_scaledTo_eq_roundedUnits hsignificand hexponent
  rw [hscaled]
  exact roundedUnits_eq_of_covers hden hunits hc hcovers

/-! ## Digits in range -/

theorem two_pow_mono {j k : Nat} (h : j ≤ k) : 2 ^ j ≤ 2 ^ k :=
  Nat.pow_le_pow_right (by decide) h

/-- The upper end of an interval, for digits in front of the point. -/
theorem double_mul_pow_le {k : Nat} (hcovers : Covers m s (decimalUnits significand (k : Int))) :
    2 * (significand * 10 ^ k * unitsPerOne) ≤ (2 * m + 1) * 2 ^ s := by
  have hupper := hcovers.upper
  rw [decimalUnits_natCast] at hupper
  have hcast : ((2 * (significand * 10 ^ k * unitsPerOne) : Nat) : ℚ) ≤
      ((2 * m + 1) * 2 ^ s : Nat) := by
    rw [Nat.cast_mul, Nat.cast_mul, Nat.cast_mul, Nat.cast_mul, Nat.cast_pow, Nat.cast_pow]
    push_cast
    linarith
  exact Nat.cast_le.1 hcast

/-- No power of ten is beyond the greatest. -/
theorem exponent_le_maxPower (hc : Canonical m s) (hpos : 0 < significand)
    (hcovers : Covers m s (decimalUnits significand exponent)) : exponent ≤ maxPower := by
  by_contra hlt
  obtain ⟨k, rfl⟩ := Int.eq_ofNat_of_zero_le (show 0 ≤ exponent by omega)
  have hupper := double_mul_pow_le hcovers
  have hm : 2 * m + 1 ≤ 2 ^ 54 := by
    have := hc.1
    simp only [Nat.pow_eq] at this
    omega
  have hshift := two_pow_mono hc.2.1
  have hpow : 10 ^ (maxPower + 1) ≤ 10 ^ k := Nat.pow_le_pow_right (by decide) (by omega)
  have hdigits := Nat.mul_le_mul_right unitsPerOne
    (Nat.le_trans hpow (Nat.le_mul_of_pos_left (10 ^ k) hpos))
  have hlargest : 2 ^ 54 * 2 ^ 2045 < 2 * (10 ^ (maxPower + 1) * unitsPerOne) := by decide +kernel
  have hmul := Nat.mul_le_mul hm hshift
  omega

/-- All but the largest double have their digits in the range of the reader. -/
theorem mul_pow_lt_rangeLimit (hc : Canonical m s) (hne : ¬ (m = 2 ^ 53 - 1 ∧ s = 2045))
    {k : Nat} (hcovers : Covers m s (decimalUnits significand (k : Int))) :
    significand * 10 ^ k < rangeLimit := by
  obtain ⟨hm, hs, -⟩ := hc
  simp only [Nat.pow_eq] at hm
  have hupper := double_mul_pow_le hcovers
  -- the next double below the largest one, and half a step
  have hbelow : (2 * m + 1) * 2 ^ s ≤ (2 ^ 54 - 3) * 2 ^ 2045 := by
    rcases Nat.eq_or_lt_of_le hs with rfl | hlt
    · exact Nat.mul_le_mul_right _ (by omega)
    · have hshift := two_pow_mono (show s ≤ 2044 by omega)
      have hmul := Nat.mul_le_mul (show 2 * m + 1 ≤ 2 ^ 54 by omega) hshift
      have hstep : 2 ^ 54 * 2 ^ 2044 ≤ (2 ^ 54 - 3) * 2 ^ 2045 := by decide +kernel
      exact Nat.le_trans hmul hstep
  have hlimit : (2 ^ 54 - 3) * 2 ^ 2045 < 2 * (rangeLimit * unitsPerOne) := by decide +kernel
  refine Nat.lt_of_mul_lt_mul_right (a := unitsPerOne) ?_
  omega

end

end Criteria.Payload
