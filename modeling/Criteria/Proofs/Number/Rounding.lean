import Criteria.Number.Binary64
import Mathlib.Tactic.Linarith
import Mathlib.Tactic.Ring

set_option autoImplicit false

/-! # Rounding to doubles

A quotient of units is rounded to a whole number of units with at most 53 significant bits
(`roundedUnits`), and the double is that number, or infinite where the number is past the largest
double (`hasUnits_round`). Rounding is monotone (`roundedUnits_mono`), so what it does between two
numbers follows from what it does to them. -/

namespace Criteria.Number.Binary64

/-- The number of bits that rounding drops. -/
def dropped (num den : Nat) : Nat := (num / den).log2 - 52

/-- The number of units that `num / den` units are rounded to, as if there was no largest double. -/
def roundedUnits (num den : Nat) : Nat :=
  roundDiv num (den * Nat.pow 2 (dropped num den)) * Nat.pow 2 (dropped num den)

theorem roundedUnits_zero (den : Nat) : roundedUnits 0 den = 0 := by
  simp [roundedUnits, roundDiv]

/-! ## Quotients -/

variable {num num' den bound : Nat}

theorem roundDiv_le (hden : 0 < den) (h : num ≤ bound * den) : roundDiv num den ≤ bound := by
  have hquot : num / den ≤ bound := Nat.div_le_of_le_mul (by rwa [Nat.mul_comm])
  have hsplit := Nat.div_add_mod num den
  unfold roundDiv
  rcases Nat.lt_or_eq_of_le hquot with hlt | heq
  · dsimp only
    split_ifs <;> omega
  · have hmod : num % den = 0 := by
      rw [heq, Nat.mul_comm] at hsplit
      omega
    simp [hmod, hden, heq]

theorem le_roundDiv (hden : 0 < den) (h : bound * den ≤ num) : bound ≤ roundDiv num den := by
  have hquot : bound ≤ num / den := (Nat.le_div_iff_mul_le hden).2 h
  unfold roundDiv
  dsimp only
  split_ifs <;> omega

theorem roundDiv_mono (hden : 0 < den) (h : num ≤ num') : roundDiv num den ≤ roundDiv num' den := by
  have hquot : num / den ≤ num' / den := Nat.div_le_div_right h
  rcases Nat.lt_or_eq_of_le hquot with hlt | heq
  · -- the quotients differ, so a whole number lies between the two
    have hupper : roundDiv num den ≤ num / den + 1 := by
      refine roundDiv_le hden ?_
      have := Nat.div_add_mod num den
      have := Nat.mod_lt num hden
      rw [Nat.add_mul, Nat.mul_comm]
      omega
    have hlower : num' / den ≤ roundDiv num' den := le_roundDiv hden (Nat.div_mul_le_self num' den)
    omega
  · have hmod : num % den ≤ num' % den := by
      have hsplit := Nat.div_add_mod num den
      have hsplit' := Nat.div_add_mod num' den
      rw [heq] at hsplit
      omega
    unfold roundDiv
    rw [heq]
    dsimp only
    split_ifs <;> omega

/-! ## Bits -/

theorem lt_dropped (hden : 0 < den) (num : Nat) : num < 2 ^ (dropped num den + 53) * den := by
  have hlog : num / den < 2 ^ ((num / den).log2 + 1) := Nat.lt_log2_self
  have hpow : 2 ^ ((num / den).log2 + 1) ≤ 2 ^ (dropped num den + 53) :=
    Nat.pow_le_pow_right (by decide) (by unfold dropped; omega)
  exact (Nat.div_lt_iff_lt_mul hden).1 (Nat.lt_of_lt_of_le hlog hpow)

theorem le_of_dropped_pos (hden : 0 < den) (h : 0 < dropped num den) :
    2 ^ (dropped num den + 52) * den ≤ num := by
  have hlog : dropped num den + 52 = (num / den).log2 := by
    unfold dropped at h ⊢
    omega
  have hne : num / den ≠ 0 := by
    intro hzero
    simp [dropped, hzero] at h
  rw [hlog]
  exact (Nat.le_div_iff_mul_le hden).1 (Nat.log2_self_le hne)

theorem dropped_mono (hden : 0 < den) (h : num ≤ num') : dropped num den ≤ dropped num' den := by
  by_contra hlt
  rw [Nat.not_le] at hlt
  have hlower := le_of_dropped_pos hden (Nat.zero_lt_of_lt hlt)
  have hupper := lt_dropped hden num'
  have hpow : 2 ^ (dropped num' den + 53) ≤ 2 ^ (dropped num den + 52) :=
    Nat.pow_le_pow_right (by decide) (by omega)
  have hmul := Nat.mul_le_mul_right den hpow
  omega

/-! ## Units -/

theorem mantissa_le (hden : 0 < den) (num : Nat) :
    roundDiv num (den * Nat.pow 2 (dropped num den)) ≤ 2 ^ 53 := by
  have hpos : 0 < den * Nat.pow 2 (dropped num den) :=
    Nat.mul_pos hden (Nat.pow_pos (by decide))
  refine roundDiv_le hpos (Nat.le_of_lt ?_)
  calc num < 2 ^ (dropped num den + 53) * den := lt_dropped hden num
    _ = 2 ^ 53 * (den * Nat.pow 2 (dropped num den)) := by
      simp only [Nat.pow_eq]
      ring

theorem le_mantissa (hden : 0 < den) {num : Nat} (h : 0 < dropped num den) :
    2 ^ 52 ≤ roundDiv num (den * Nat.pow 2 (dropped num den)) := by
  have hpos : 0 < den * Nat.pow 2 (dropped num den) :=
    Nat.mul_pos hden (Nat.pow_pos (by decide))
  refine le_roundDiv hpos ?_
  calc 2 ^ 52 * (den * Nat.pow 2 (dropped num den)) = 2 ^ (dropped num den + 52) * den := by
        simp only [Nat.pow_eq]
        ring
    _ ≤ num := le_of_dropped_pos hden h

/-- Rounding is monotone. -/
theorem roundedUnits_mono (hden : 0 < den) (h : num ≤ num') :
    roundedUnits num den ≤ roundedUnits num' den := by
  unfold roundedUnits
  rcases Nat.lt_or_eq_of_le (dropped_mono hden h) with hlt | heq
  · -- a power of two lies between the two
    have hlower := le_mantissa hden (Nat.zero_lt_of_lt hlt)
    calc roundDiv num (den * Nat.pow 2 (dropped num den)) * Nat.pow 2 (dropped num den)
        ≤ 2 ^ 53 * Nat.pow 2 (dropped num den) := Nat.mul_le_mul_right _ (mantissa_le hden num)
      _ = 2 ^ 52 * Nat.pow 2 (dropped num den + 1) := by
        simp only [Nat.pow_eq]
        ring
      _ ≤ 2 ^ 52 * Nat.pow 2 (dropped num' den) :=
        Nat.mul_le_mul_left _ (Nat.pow_le_pow_right (by decide) hlt)
      _ ≤ _ := Nat.mul_le_mul_right _ hlower
  · rw [heq]
    exact Nat.mul_le_mul_right _
      (roundDiv_mono (Nat.mul_pos hden (Nat.pow_pos (by decide))) h)

/-! ## Doubles -/

/-- The number of units just past the largest double. -/
@[irreducible] def unitsLimit : Nat := Nat.pow 2 2098

theorem unitsLimit_eq {s t : Nat} (h : s + t = 2098) : unitsLimit = 2 ^ s * Nat.pow 2 t := by
  unfold unitsLimit
  rw [← h]
  exact Nat.pow_add 2 s t

theorem mul_pow_lt_unitsLimit {mantissa shift most : Nat} (hm : mantissa < 2 ^ 53)
    (hshift : shift ≤ most) (hmost : 53 + most = 2098) :
    mantissa * Nat.pow 2 shift < unitsLimit := by
  rw [unitsLimit_eq hmost]
  exact Nat.mul_lt_mul_of_lt_of_le hm (Nat.pow_le_pow_right (by decide) hshift)
    (Nat.pow_pos (by decide))

theorem unitsLimit_le_mul_pow {mantissa shift least : Nat} (hm : 2 ^ 52 ≤ mantissa)
    (hshift : least ≤ shift) (hleast : 52 + least = 2098) :
    unitsLimit ≤ mantissa * Nat.pow 2 shift := by
  rw [unitsLimit_eq hleast]
  exact Nat.mul_le_mul hm (Nat.pow_le_pow_right (by decide) hshift)

/-- The double has this sign and this number of units, or is infinite if there are too many. -/
def HasUnits (x : Binary64) (negative : Bool) (units : Nat) : Prop :=
  if units < unitsLimit then ∃ m s h, x = .finite negative m s h ∧ m * Nat.pow 2 s = units
  else x = .infinite negative

theorem hasUnits_ofParts (negative : Bool) {mantissa shift : Nat} (hm : mantissa < 2 ^ 53)
    (hnormal : 0 < shift → 2 ^ 52 ≤ mantissa) :
    HasUnits (ofParts negative mantissa shift) negative (mantissa * Nat.pow 2 shift) := by
  by_cases hshift : shift ≤ 2045
  · have hcanonical : Canonical mantissa shift := by
      refine ⟨hm, hshift, ?_⟩
      rcases Nat.eq_zero_or_pos shift with hzero | hpos
      · exact Or.inr hzero
      · exact Or.inl (hnormal hpos)
    rw [HasUnits, if_pos (mul_pow_lt_unitsLimit hm hshift rfl), ofParts, dif_pos hcanonical]
    exact ⟨mantissa, shift, hcanonical, rfl, rfl⟩
  · have hlimit := unitsLimit_le_mul_pow (hnormal (by omega)) (Nat.not_le.1 hshift) rfl
    rw [HasUnits, if_neg (Nat.not_lt.2 hlimit), ofParts, dif_neg fun h => hshift h.2.1]

theorem hasUnits_round (negative : Bool) (hden : 0 < den) (num : Nat) :
    HasUnits (round negative num den) negative (roundedUnits num den) := by
  have hle := mantissa_le hden num
  have hnormal : 0 < dropped num den → _ := le_mantissa hden
  have hround : round negative num den =
      if roundDiv num (den * Nat.pow 2 (dropped num den)) = Nat.pow 2 53 then
        ofParts negative (Nat.pow 2 52) (dropped num den + 1)
      else ofParts negative (roundDiv num (den * Nat.pow 2 (dropped num den)))
        (dropped num den) := rfl
  rw [hround, roundedUnits]
  generalize roundDiv num (den * Nat.pow 2 (dropped num den)) = mantissa at hle hnormal ⊢
  split
  · next hcarry =>
      -- the mantissa has grown by a bit
      have hunits : mantissa * Nat.pow 2 (dropped num den) =
          Nat.pow 2 52 * Nat.pow 2 (dropped num den + 1) := by
        rw [hcarry]
        simp only [Nat.pow_eq]
        ring
      rw [hunits]
      exact hasUnits_ofParts negative (by decide) fun _ => Nat.le_refl _
  · next hfits =>
      exact hasUnits_ofParts negative (Nat.lt_of_le_of_ne hle hfits) hnormal

theorem unitsPerOne_pos : 0 < unitsPerOne := by decide +kernel

/-- The number of units that a natural number is rounded to. -/
def unitsOf (n : Nat) : Nat := roundedUnits (n * unitsPerOne) 1

theorem unitsOf_zero : unitsOf 0 = 0 := by
  rw [unitsOf, Nat.zero_mul, roundedUnits_zero]

theorem hasUnits_ofNat (n : Nat) : HasUnits (ofNat n) false (unitsOf n) :=
  hasUnits_round false Nat.one_pos (n * unitsPerOne)

theorem unitsOf_mono {m n : Nat} (h : m ≤ n) : unitsOf m ≤ unitsOf n :=
  roundedUnits_mono Nat.one_pos (Nat.mul_le_mul_right unitsPerOne h)

namespace HasUnits

variable {x y : Binary64} {negative sign : Bool} {units factor : Nat}

theorem exists_finite (h : HasUnits x negative units) (hlimit : units < unitsLimit) :
    ∃ m s hc, x = .finite negative m s hc ∧ m * Nat.pow 2 s = units := by
  rwa [HasUnits, if_pos hlimit] at h

theorem eq_infinite (h : HasUnits x negative units) (hlimit : unitsLimit ≤ units) :
    x = .infinite negative := by
  rwa [HasUnits, if_neg (Nat.not_lt.2 hlimit)] at h

theorem isFinite_eq (h : HasUnits x negative units) : x.isFinite = decide (units < unitsLimit) := by
  by_cases hlimit : units < unitsLimit
  · obtain ⟨m, s, hc, rfl, -⟩ := h.exists_finite hlimit
    simp [isFinite, hlimit]
  · rw [h.eq_infinite (Nat.not_lt.1 hlimit)]
    simp [isFinite, hlimit]

theorem neg (h : HasUnits x negative units) : HasUnits x.neg (!negative) units := by
  by_cases hlimit : units < unitsLimit
  · obtain ⟨m, s, hc, rfl, hunits⟩ := h.exists_finite hlimit
    rw [HasUnits, if_pos hlimit]
    exact ⟨m, s, hc, rfl, hunits⟩
  · rw [HasUnits, if_neg hlimit, h.eq_infinite (Nat.not_lt.1 hlimit)]
    rfl

/-- The product of two finite doubles is rounded once. -/
theorem mul (hx : HasUnits x negative units) (hy : HasUnits y sign factor)
    (hunits : units < unitsLimit) (hfactor : factor < unitsLimit) :
    HasUnits (x.mul y) (negative != sign) (roundedUnits (units * factor) unitsPerOne) := by
  obtain ⟨m, s, hc, rfl, rfl⟩ := hx.exists_finite hunits
  obtain ⟨m', s', hc', rfl, rfl⟩ := hy.exists_finite hfactor
  have hproduct : m * Nat.pow 2 s * (m' * Nat.pow 2 s') = m * m' * Nat.pow 2 (s + s') := by
    simp only [Nat.pow_eq]
    ring
  have hround := hasUnits_round (negative != sign) unitsPerOne_pos (m * m' * Nat.pow 2 (s + s'))
  rw [mul, hproduct]
  exact hround

theorem toInt?_eq (h : HasUnits x negative units) (hlimit : units < unitsLimit) :
    x.toInt? = if units % unitsPerOne = 0 then
      some (if negative then -((units / unitsPerOne : Nat) : Int) else (units / unitsPerOne : Nat))
    else none := by
  obtain ⟨m, s, hc, rfl, rfl⟩ := h.exists_finite hlimit
  rfl

theorem toInt?_mul {whole : Nat} (h : HasUnits x negative (whole * unitsPerOne))
    (hlimit : whole * unitsPerOne < unitsLimit) :
    x.toInt? = some (if negative then -(whole : Int) else whole) := by
  rw [h.toInt?_eq hlimit, if_pos (Nat.mul_mod_left _ _), Nat.mul_div_cancel _ unitsPerOne_pos]

end HasUnits

end Criteria.Number.Binary64
