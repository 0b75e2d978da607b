import Criteria.Proofs.Number.Written
import Criteria.Proofs.Payload.Objects
import Criteria.Proofs.Payload.Scaling

set_option autoImplicit false

/-! # Numbers of payloads are finite

A number of a payload becomes a double in one product or some quotients of doubles. Only the product
is checked for an infinity; the quotients need no check, because each divisor is at least one
(`isFinite_div_powerOfTen`). So a number comes to a finite double or to nothing
(`Numeral.finite_of_numeric?`), and to nothing from `2 * 10 ^ 308` on, which is a little past the
largest double (`Numeral.numeric?_eq_none_of_le_size`). -/

namespace Criteria.Number.Binary64

theorem exists_eq_finite {x : Binary64} (h : x.isFinite = true) :
    ∃ negative m s hc, x = .finite negative m s hc := by
  cases x with
  | finite negative m s hc => exact ⟨negative, m, s, hc, rfl⟩
  | infinite negative => cases h
  | nan => cases h

@[simp] theorem isFinite_neg (x : Binary64) : x.neg.isFinite = x.isFinite := by cases x <;> rfl

/-- The largest double is less than what is rounded past it. -/
theorem units_lt_overflow {m s : Nat} (h : Canonical m s) :
    m * Nat.pow 2 s < overflowLimit * unitsPerOne := by
  obtain ⟨t, ht⟩ : ∃ t, t = 2044 := ⟨_, rfl⟩
  obtain ⟨hm, hs, -⟩ := h
  have hpow : Nat.pow 2 s ≤ Nat.pow 2 t * 2 :=
    Nat.pow_le_pow_right (by decide) (show s ≤ t + 1 by omega)
  have hpos : 0 < Nat.pow 2 t := Nat.pow_pos (by decide)
  have hdouble : (2 ^ 53 - 1) * 2 = 2 ^ 54 - 2 := rfl
  rw [overflowUnits_eq ht]
  calc m * Nat.pow 2 s ≤ (2 ^ 53 - 1) * (Nat.pow 2 t * 2) :=
        Nat.mul_le_mul (Nat.le_sub_one_of_lt hm) hpow
    _ = (2 ^ 54 - 2) * Nat.pow 2 t := by
        rw [Nat.mul_comm (Nat.pow 2 t), ← Nat.mul_assoc, hdouble]
    _ < (2 ^ 54 - 1) * Nat.pow 2 t := Nat.mul_lt_mul_of_pos_right (by decide) hpos

theorem isFinite_ofInt {i : Int} (h : i.natAbs < overflowLimit) : (ofInt i).isFinite = true := by
  rw [ofInt, isFinite_round_iff _ Nat.one_pos, Nat.mul_one]
  exact Nat.mul_lt_mul_of_pos_right h unitsPerOne_pos

theorem isFinite_ofNat {n : Nat} (h : n < overflowLimit) : (ofNat n).isFinite = true := by
  rw [ofNat, isFinite_round_iff _ Nat.one_pos, Nat.mul_one]
  exact Nat.mul_lt_mul_of_pos_right h unitsPerOne_pos

theorem size_lt_overflowLimit : UInt64.size < overflowLimit := by decide +kernel

end Criteria.Number.Binary64

namespace Criteria.Payload

open Number Binary64

/-! ## Scaling stays finite -/

/-- A quotient by a power of ten is no larger than the dividend. -/
theorem isFinite_div_powerOfTen {x : Binary64} {power : Nat} (hx : x.isFinite = true)
    (hpower : power ≤ maxPower) : (x.div (powerOfTen power)).isFinite = true := by
  obtain ⟨negative, m, s, hc, rfl⟩ := exists_eq_finite hx
  obtain ⟨m', s', hc', hten, hunits⟩ :=
    (hasUnits_ofNat (Nat.pow 10 power)).exists_finite (unitsOf_pow_lt hpower)
  have hone : unitsPerOne ≤ m' * Nat.pow 2 s' := by
    rw [hunits, ← Nat.one_mul unitsPerOne, ← unitsOf_eq (by decide)]
    exact unitsOf_mono (Nat.pow_pos (by decide))
  have hpos : 0 < m' * Nat.pow 2 s' := Nat.lt_of_lt_of_le unitsPerOne_pos hone
  have hne : m' ≠ 0 := Nat.ne_of_gt (Nat.pos_of_mul_pos_right hpos)
  rw [powerOfTen, hten, div, if_neg hne, isFinite_round_iff _ hpos]
  calc m * Nat.pow 2 s * unitsPerOne ≤ m * Nat.pow 2 s * (m' * Nat.pow 2 s') :=
        Nat.mul_le_mul_left _ hone
    _ < overflowLimit * unitsPerOne * (m' * Nat.pow 2 s') :=
        Nat.mul_lt_mul_of_pos_right (units_lt_overflow hc) hpos

theorem isFinite_of_scaleByTen? {fuel : Nat} {x y : Binary64} {exponent : Int}
    (hx : x.isFinite = true) (h : scaleByTen? fuel x exponent = some y) : y.isFinite = true := by
  induction fuel generalizing x exponent with
  | zero =>
      cases h
      exact hx
  | succ fuel ih =>
      rw [scaleByTen?] at h
      split at h
      · next hpower =>
          split at h
          · exact (Option.filter_eq_some_iff.1 h).2
          · cases h
            exact isFinite_div_powerOfTen hx hpower
      · split at h
        · cases h
          exact hx
        · split at h
          · cases h
          · exact ih (isFinite_div_powerOfTen hx (Nat.le_refl maxPower)) h

/-! ## Numbers -/

variable {negative : Bool} {significand : Nat} {x : Binary64}

theorem isFinite_of_scaled? {exponent : Int} (hsignificand : significand < UInt64.size)
    (h : scaled? negative significand exponent = some (.float x)) : x.isFinite = true := by
  obtain ⟨y, hy, hfloat⟩ := Option.map_eq_some_iff.1 h
  have hfinite := isFinite_of_scaleByTen?
    (isFinite_ofNat (Nat.lt_trans hsignificand size_lt_overflowLimit)) hy
  cases hfloat
  split
  · rw [isFinite_neg, hfinite]
  · exact hfinite

theorem isFinite_of_powered? {point : Int} {p : Option Power}
    (hsignificand : significand < UInt64.size)
    (h : powered? negative significand point p = some (.float x)) : x.isFinite = true := by
  cases p with
  | none => exact isFinite_of_scaled? hsignificand h
  | some p =>
      rw [powered?, scaledBy?] at h
      split at h
      · exact isFinite_of_scaled? hsignificand h
      · split at h
        · cases h
        · cases h
          rfl

/-- An integer comes to one of at most 64 bits, or to a finite double. -/
theorem finite_of_integer? {dropped : Nat} {y : Numeric} (hsignificand : significand < UInt64.size)
    (h : integer? negative significand dropped = some y) :
    (∃ i, y = .int i ∧ i.natAbs < UInt64.size) ∨ ∃ x, y = .float x ∧ x.isFinite = true := by
  rw [integer?] at h
  split at h
  · obtain ⟨x, rfl⟩ := scaled?_eq_float h
    exact Or.inr ⟨x, rfl, isFinite_of_scaled? hsignificand h⟩
  · split at h
    · cases h
      exact Or.inl ⟨_, rfl, by rwa [Int.natAbs_natCast]⟩
    · split at h
      · cases h
        refine Or.inr ⟨_, rfl, ?_⟩
        rw [isFinite_neg, isFinite_ofNat (Nat.lt_trans hsignificand size_lt_overflowLimit)]
      · cases h
        exact Or.inl ⟨_, rfl, by rwa [Int.natAbs_neg, Int.natAbs_natCast]⟩

namespace Numeral

/-- A number comes to an integer of at most 64 bits, or to a finite double. -/
theorem finite_of_numeric? {n : Numeral} {y : Numeric} (h : n.numeric? = some y) :
    (∃ i, y = .int i ∧ i.natAbs < UInt64.size) ∨ ∃ x, y = .float x ∧ x.isFinite = true := by
  have hwhole := takeFitting_lt n.whole.chars (show 0 < UInt64.size by decide)
  by_cases hinteger : n.IsInteger
  · rw [numeric?_of_isInteger hinteger] at h
    exact finite_of_integer? hwhole h
  · rw [numeric?_of_not_isInteger hinteger] at h
    obtain ⟨x, rfl⟩ := powered?_eq_float h
    exact Or.inr ⟨x, rfl, isFinite_of_powered? (takeFitting_lt n.decimals hwhole) h⟩

theorem isFinite_of_double? {n : Numeral} (h : n.double? = some x) : x.isFinite = true := by
  obtain ⟨y, hy, rfl⟩ := Option.map_eq_some_iff.1 h
  rcases finite_of_numeric? hy with ⟨i, rfl, hi⟩ | ⟨x, rfl, hx⟩
  · exact isFinite_ofInt (Nat.lt_trans hi size_lt_overflowLimit)
  · exact hx

end Numeral

/-! ## Numbers that are too large -/

theorem pos_of_large {power : Nat} (hlarge : 19 * 10 ^ 307 ≤ significand * 10 ^ power) :
    0 < significand := by
  by_contra hzero
  have hpos : 0 < 19 * 10 ^ 307 := by positivity
  rw [Nat.eq_zero_of_not_pos hzero, Nat.zero_mul] at hlarge
  exact Nat.not_lt.2 hlarge hpos

/-- A product loses hardly anything to the three roundings. -/
theorem le_scaledUnits (significand power : Nat) :
    (99 / 100 * (significand * 10 ^ power * unitsPerOne) - 1 : ℚ) ≤
      scaledUnits significand power := by
  have hone := cast_unitsPerOne_pos
  have hpow : (0 : ℚ) < 10 ^ power := by positivity
  have hfactors := abs_mul_sub_le (mul_nonneg (Nat.cast_nonneg significand) hone.le)
    (mul_pos hpow hone).le roundoff_pos.le roundoff_le (abs_unitsOf_sub_le significand)
    (abs_unitsOf_pow_sub_le power)
  have hround : |(scaledUnits significand power : ℚ) -
      (unitsOf significand * unitsOf (Nat.pow 10 power) : Nat) / unitsPerOne| ≤ _ :=
    abs_roundedUnits_sub_le unitsPerOne_pos rfl
  rw [Nat.cast_mul] at hround
  have hsize : 0 ≤ (significand : ℚ) * 10 ^ power * unitsPerOne :=
    mul_nonneg (mul_nonneg (Nat.cast_nonneg _) hpow.le) hone.le
  generalize (10 : ℚ) ^ power = pow at *
  generalize (unitsPerOne : ℚ) = one at *
  have hproduct : 997 / 1000 * (significand * pow * one) ≤
      unitsOf significand * unitsOf (Nat.pow 10 power) / one := by
    rw [le_div_iff₀ hone]
    have hsquare := mul_nonneg hsize hone.le
    have hlost := mul_le_mul_of_nonneg_right roundoff_le hsquare
    linarith only [(abs_le.1 hfactors).1, hlost, hsquare]
  generalize (unitsOf significand * unitsOf (Nat.pow 10 power) / one : ℚ) = product at *
  have hnonneg : 0 ≤ product := by linarith only [hproduct, hsize]
  have hlost : max (1 / 2) (roundoff * product) ≤ 1 + 1 / 1000 * product := by
    refine max_le (by linarith only [hnonneg]) ?_
    linarith only [mul_le_mul_of_nonneg_right roundoff_le hnonneg]
  linarith only [(abs_le.1 hround).1, hlost, hproduct, hsize]

/-- A product that is well past the largest double stays past it. -/
theorem unitsLimit_le_scaledUnits {power : Nat}
    (hlarge : 19 * 10 ^ 307 ≤ significand * 10 ^ power) :
    unitsLimit ≤ scaledUnits significand power := by
  have hlimit : unitsLimit + 1 ≤ 18 * 10 ^ 307 * unitsPerOne := by decide +kernel
  have hscaled := le_scaledUnits significand power
  have hproduct := Nat.mul_le_mul_right unitsPerOne hlarge
  generalize 10 ^ 307 = large at *
  rw [← Nat.cast_le (α := ℚ)] at hlimit hproduct ⊢
  push_cast at hlimit hproduct
  have hunits : (0 : ℚ) ≤ large * unitsPerOne :=
    mul_nonneg (Nat.cast_nonneg _) cast_unitsPerOne_pos.le
  linarith only [hlimit, hproduct, hscaled, hunits]

theorem scaled?_eq_none_of_le (negative : Bool) {power : Nat}
    (hsignificand : significand < UInt64.size) (hlarge : 19 * 10 ^ 307 ≤ significand * 10 ^ power) :
    scaled? negative significand power = none := by
  rcases Nat.lt_or_ge maxPower power with hmax | hmax
  · exact scaled?_of_maxPower_lt negative (pos_of_large hlarge) hsignificand hmax
  · rw [scaled?_of_le_maxPower negative hsignificand hmax,
      if_neg (Nat.not_lt.2 (unitsLimit_le_scaledUnits hlarge))]

theorem powered?_eq_none_of_le (negative : Bool) {point : Int} {p : Option Power} {power : Nat}
    (hsignificand : significand < UInt64.size) (hwritten : -2147483648 < Power.exponent p)
    (hpower : point + Power.exponent p = power)
    (hlarge : 19 * 10 ^ 307 ≤ significand * 10 ^ power) :
    powered? negative significand point p = none := by
  have hscaled := scaled?_eq_none_of_le negative hsignificand hlarge
  cases p with
  | none =>
      rw [Power.exponent, Int.add_zero] at hpower
      rw [powered?, hpower, hscaled]
  | some p =>
      rw [Power.exponent] at hwritten hpower
      rw [powered?, scaledBy?]
      by_cases hdown : p.sign = ['-']
      · simp only [hdown, if_true] at hwritten hpower
        rw [if_pos (by omega), hdown, beq_self_eq_true, if_pos rfl, Int.sub_eq_add_neg, hpower,
          hscaled]
      · have hbeq : (p.sign == ['-']) = false := by simpa using hdown
        simp only [hdown, if_false] at hpower
        rw [hbeq]
        split
        · rw [if_neg (by decide), hpower, hscaled]
        · rw [if_pos ⟨Nat.ne_of_gt (pos_of_large hlarge), rfl⟩]

/-! ## The significand of a number -/

theorem ofDigitChars_lt_mul_pow {ds : List Char} (hds : ∀ c ∈ ds, c.isDigit = true) (n : Nat) :
    Nat.ofDigitChars 10 ds n < (n + 1) * 10 ^ ds.length := by
  have hlt := ofDigitChars_lt hds
  rw [Nat.ofDigitChars_eq_ofDigitChars_zero, Nat.mul_comm (10 ^ ds.length), Nat.add_mul,
    Nat.one_mul]
  omega

/-- Digits that fit are not lost. -/
theorem mul_pow_le_takeFitting (n : Nat) (ds : List Char) :
    n * 10 ^ ds.length ≤ (takeFitting n ds).1 * 10 ^ (takeFitting n ds).2.length := by
  induction ds generalizing n with
  | nil => exact Nat.le_refl _
  | cons d ds ih =>
      rw [takeFitting]
      split
      · dsimp only
        split
        · refine Nat.le_trans ?_ (ih _)
          rw [List.length_cons, Nat.pow_succ', ← Nat.mul_assoc]
          exact Nat.mul_le_mul_right _ (Nat.le_add_right _ _)
        · exact Nat.le_refl _
      · exact Nat.le_refl _

/-- The digits that do not fit are a small part of a number. -/
theorem ofDigitChars_le_takeFitting {ds : List Char} (hds : ∀ c ∈ ds, c.isDigit = true) (n : Nat) :
    19 * Nat.ofDigitChars 10 ds n ≤
      20 * ((takeFitting n ds).1 * 10 ^ (takeFitting n ds).2.length) := by
  have hrest := ofDigitChars_lt_mul_pow (isDigit_of_mem_takeFitting n hds) (takeFitting n ds).1
  rw [← ofDigitChars_takeFitting hds n]
  by_cases hleft : (takeFitting n ds).2 = []
  · rw [hleft, Nat.ofDigitChars_nil, List.length_nil, Nat.pow_zero]
    omega
  · have hfull := full_of_takeFitting hds hleft
    have hsize : UInt64.size = 18446744073709551616 := rfl
    have hmul := Nat.mul_le_mul_right (10 ^ (takeFitting n ds).2.length)
      (show 19 * ((takeFitting n ds).1 + 1) ≤ 20 * (takeFitting n ds).1 by omega)
    rw [Nat.mul_assoc, Nat.mul_assoc] at hmul
    omega

/-- The digits that are left out of a significand are a small part of a number. Behind a digit in
front of the point that did not fit, digits behind the point may still be taken. -/
theorem ofDigitChars_le_significand {ds fs : List Char} (hds : ∀ c ∈ ds, c.isDigit = true)
    (hfs : ∀ c ∈ fs, c.isDigit = true) :
    19 * Nat.ofDigitChars 10 (ds ++ fs) 0 ≤
      20 * ((takeFitting (takeFitting 0 ds).1 fs).1 *
        10 ^ ((takeFitting 0 ds).2.length + (takeFitting (takeFitting 0 ds).1 fs).2.length)) := by
  rw [Nat.ofDigitChars_append]
  by_cases hleft : (takeFitting 0 ds).2 = []
  · have hwhole := ofDigitChars_takeFitting hds 0
    rw [hleft, Nat.ofDigitChars_nil] at hwhole
    rw [← hwhole, hleft, List.length_nil, Nat.zero_add]
    exact ofDigitChars_le_takeFitting hfs _
  · have hfull := full_of_takeFitting hds hleft
    have hsize : UInt64.size = 18446744073709551616 := rfl
    have hwhole := ofDigitChars_lt_mul_pow (isDigit_of_mem_takeFitting 0 hds) (takeFitting 0 ds).1
    rw [ofDigitChars_takeFitting hds 0] at hwhole
    have hall := ofDigitChars_lt_mul_pow hfs (Nat.ofDigitChars 10 ds 0)
    have htaken := mul_pow_le_takeFitting (takeFitting 0 ds).1 fs
    generalize Nat.ofDigitChars 10 ds 0 = whole at hwhole hall ⊢
    generalize takeFitting (takeFitting 0 ds).1 fs = all at htaken ⊢
    generalize takeFitting 0 ds = first at *
    calc 19 * Nat.ofDigitChars 10 fs whole
      _ ≤ 19 * ((whole + 1) * 10 ^ fs.length) := Nat.mul_le_mul_left _ (Nat.le_of_lt hall)
      _ ≤ 19 * ((first.1 + 1) * 10 ^ first.2.length * 10 ^ fs.length) :=
          Nat.mul_le_mul_left _ (Nat.mul_le_mul_right _ (Nat.succ_le_of_lt hwhole))
      _ = 19 * (first.1 + 1) * (10 ^ first.2.length * 10 ^ fs.length) := by ring
      _ ≤ 20 * first.1 * (10 ^ first.2.length * 10 ^ fs.length) :=
          Nat.mul_le_mul_right _ (by omega)
      _ = 20 * (10 ^ first.2.length * (first.1 * 10 ^ fs.length)) := by ring
      _ ≤ 20 * (10 ^ first.2.length * (all.1 * 10 ^ all.2.length)) :=
          Nat.mul_le_mul_left _ (Nat.mul_le_mul_left _ htaken)
      _ = 20 * (all.1 * 10 ^ (first.2.length + all.2.length)) := by ring

namespace Numeral

/-- A number is hardly larger than its significand with the power of ten at its point. -/
theorem le_significand_of_le_size {n : Numeral} {limit : Nat}
    (hsize : ((20 * limit : Nat) : ℚ) ≤ n.size) (power : Nat) :
    let whole := takeFitting 0 n.whole.chars
    let all := takeFitting whole.1 n.decimals
    (whole.2.length : Int) - (n.decimals.length - all.2.length : Nat) +
        Power.exponent n.power ≤ power →
      19 * limit ≤ all.1 * 10 ^ power := by
  intro whole all hpower
  have hdigits : 19 * digitsValue (n.whole.chars ++ n.decimals) ≤
      20 * (all.1 * 10 ^ (whole.2.length + all.2.length)) :=
    ofDigitChars_le_significand n.whole.isDigit n.isDigit_decimals
  have hleft : all.2.length ≤ n.decimals.length := by
    rcases takeFitting_eq_or_shorter whole.1 n.decimals with h | h
    · exact Nat.le_of_eq (by rw [show all = _ from h])
    · exact Nat.le_of_lt h
  generalize all = all' at *
  generalize whole.2.length = dropped at *
  obtain ⟨j, hj⟩ := Int.le.dest hpower
  have hwhole : 20 * limit * 10 ^ (dropped + all'.2.length + j) ≤
      digitsValue (n.whole.chars ++ n.decimals) * 10 ^ power := by
    rw [← Nat.not_lt, ← n.size_lt_iff (by omega), not_lt]
    exact hsize
  have hpow : 10 ^ (dropped + all'.2.length) ≤ 10 ^ (dropped + all'.2.length + j) :=
    Nat.pow_le_pow_right (by decide) (Nat.le_add_right _ _)
  have hpos : 0 < 20 * 10 ^ (dropped + all'.2.length) := by positivity
  refine Nat.le_of_mul_le_mul_right ?_ hpos
  calc 19 * limit * (20 * 10 ^ (dropped + all'.2.length))
    _ = 19 * (20 * limit * 10 ^ (dropped + all'.2.length)) := by ring
    _ ≤ 19 * (20 * limit * 10 ^ (dropped + all'.2.length + j)) :=
        Nat.mul_le_mul_left _ (Nat.mul_le_mul_left _ hpow)
    _ ≤ 19 * (digitsValue (n.whole.chars ++ n.decimals) * 10 ^ power) :=
        Nat.mul_le_mul_left _ hwhole
    _ = 19 * digitsValue (n.whole.chars ++ n.decimals) * 10 ^ power := by ring
    _ ≤ 20 * (all'.1 * 10 ^ (dropped + all'.2.length)) * 10 ^ power :=
        Nat.mul_le_mul_right _ hdigits
    _ = all'.1 * 10 ^ power * (20 * 10 ^ (dropped + all'.2.length)) := by ring

/-- A number that is well past the largest double comes to nothing. -/
theorem numeric?_eq_none_of_le_size {n : Numeral} (hsize : 2 * 10 ^ 308 ≤ n.size)
    (hwritten : -2147483648 < Power.exponent n.power) : n.numeric? = none := by
  have hten : (2 * 10 ^ 308 : ℚ) = 20 * 10 ^ 307 := by
    rw [pow_succ' (10 : ℚ) 307, ← mul_assoc]
    exact congrArg (· * (10 : ℚ) ^ 307) (by norm_num)
  have hlimit : ((20 * 10 ^ 307 : Nat) : ℚ) ≤ n.size := by
    rw [Nat.cast_mul, Nat.cast_pow, Nat.cast_ofNat, Nat.cast_ofNat, ← hten]
    exact hsize
  by_cases hinteger : n.IsInteger
  · rw [size_of_isInteger hinteger, Nat.cast_le] at hlimit
    rw [numeric?_eq_none_iff hinteger]
    exact Nat.le_trans (by decide +kernel) hlimit
  · rw [numeric?_of_not_isInteger hinteger]
    have hfits := takeFitting_lt n.decimals
      (takeFitting_lt n.whole.chars (show 0 < UInt64.size by decide))
    have hlarge := le_significand_of_le_size hlimit
    dsimp only at hlarge ⊢
    generalize takeFitting (takeFitting 0 n.whole.chars).1 n.decimals = all at *
    generalize ((takeFitting 0 n.whole.chars).2.length : Int) - _ = point at *
    rcases Int.lt_or_le (point + Power.exponent n.power) 0 with hneg | hpos
    · -- the significand by itself is not that large
      have hone := hlarge 0 (Int.le_of_lt hneg)
      rw [Nat.pow_zero, Nat.mul_one] at hone
      have hlt : UInt64.size < 19 * 10 ^ 307 := by decide +kernel
      exact (Nat.not_lt.2 hone (Nat.lt_trans hfits hlt)).elim
    · obtain ⟨power, hpower⟩ := Int.eq_ofNat_of_zero_le hpos
      exact powered?_eq_none_of_le n.negative hfits hwritten hpower
        (hlarge power (Int.le_of_eq hpower))

end Numeral

end Criteria.Payload
