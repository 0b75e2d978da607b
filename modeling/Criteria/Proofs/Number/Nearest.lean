import Criteria.Proofs.Number.Rounding
import Mathlib.Algebra.Order.Field.Basic
import Mathlib.Data.Rat.Cast.Order
import Mathlib.Tactic.FieldSimp
import Mathlib.Tactic.Positivity

set_option autoImplicit false

/-! # What rounds to a double

The numbers of units that round to a double form an interval around it: half a step of the double
to either side, and only half of that below a power of two, where the steps get smaller. The ends
belong to it if the mantissa is even (`Covers`, `roundedUnits_eq_of_covers`).

Of any number, rounding moves half a unit at most, or the part `roundoff` of the number
(`abs_roundedUnits_sub_le`). -/

namespace Criteria.Number.Binary64

variable {num den : Nat}

/-! ## Quotients -/

/-- The nearest whole number is at most a half away. -/
theorem roundDiv_near (hden : 0 < den) (num : Nat) :
    2 * (roundDiv num den * den) ≤ 2 * num + den ∧
      2 * num ≤ 2 * (roundDiv num den * den) + den := by
  have hsplit := Nat.div_add_mod' num den
  have hmod := Nat.mod_lt num hden
  have hsucc : (num / den + 1) * den = num / den * den + den := Nat.succ_mul _ _
  unfold roundDiv
  dsimp only
  split_ifs
  · omega
  · rw [hsucc]
    omega
  · omega
  · rw [hsucc]
    omega

/-- A whole number that is at most a half away is the nearest, if it is even or nearer than that. -/
theorem roundDiv_eq (hden : 0 < den) {r : Nat} (hlow : 2 * (r * den) ≤ 2 * num + den)
    (hhigh : 2 * num ≤ 2 * (r * den) + den)
    (hodd : r % 2 = 1 → 2 * (r * den) < 2 * num + den ∧ 2 * num < 2 * (r * den) + den) :
    roundDiv num den = r := by
  have hsplit := Nat.div_add_mod' num den
  have hmod := Nat.mod_lt num hden
  have hle : num / den ≤ r := by
    refine Nat.le_of_lt_succ ((Nat.div_lt_iff_lt_mul hden).2 ?_)
    rw [Nat.succ_mul]
    omega
  have hge : r ≤ num / den + 1 := by
    refine Nat.le_of_lt_succ (Nat.lt_of_mul_lt_mul_right (a := den) ?_)
    rw [Nat.succ_mul, Nat.add_mul]
    omega
  unfold roundDiv
  dsimp only
  rcases Nat.eq_or_lt_of_le hle with heq | hlt
  · -- the whole number is the quotient
    rw [heq] at hsplit ⊢
    split_ifs <;> omega
  · -- the whole number is above the quotient
    have hr : r = num / den + 1 := by omega
    rw [hr, Nat.add_mul, Nat.one_mul] at hlow hhigh hodd
    rw [hr]
    split_ifs <;> omega

/-- How many bits are dropped shows in the size of the quotient. -/
theorem dropped_eq (hden : 0 < den) {s : Nat} (hlt : num < 2 ^ (s + 53) * den)
    (hle : 0 < s → 2 ^ (s + 52) * den ≤ num) : dropped num den = s := by
  refine Nat.le_antisymm ?_ ?_
  · by_contra habove
    have hlower := le_of_dropped_pos hden (show 0 < dropped num den by omega)
    have hpow : 2 ^ (s + 53) ≤ 2 ^ (dropped num den + 52) :=
      Nat.pow_le_pow_right (by decide) (by omega)
    have hmul := Nat.mul_le_mul_right den hpow
    omega
  · by_contra hbelow
    have hupper := lt_dropped hden num
    have hpow : 2 ^ (dropped num den + 53) ≤ 2 ^ (s + 52) :=
      Nat.pow_le_pow_right (by decide) (by omega)
    have hmul := Nat.mul_le_mul_right den hpow
    have hlower := hle (by omega)
    omega

/-! ## The interval of a double -/

/-- How far the interval of a double reaches down. -/
def gapBelow (m s : Nat) : ℚ := if m = 2 ^ 52 ∧ 0 < s then 2 ^ s / 4 else 2 ^ s / 2

theorem gapBelow_le (m s : Nat) : gapBelow m s ≤ 2 ^ s / 2 := by
  have hpos : (0 : ℚ) < 2 ^ s := by positivity
  unfold gapBelow
  split
  · linarith
  · exact le_refl _

/-- The number of units is in the interval of the double with these parts. -/
structure Covers (m s : Nat) (t : ℚ) : Prop where
  lower : m * 2 ^ s - gapBelow m s ≤ t
  upper : t ≤ m * 2 ^ s + 2 ^ s / 2
  strict : m % 2 = 1 → m * 2 ^ s - gapBelow m s < t ∧ t < m * 2 ^ s + 2 ^ s / 2

namespace Covers

variable {m s : Nat} {t : ℚ}

theorem abs_sub_le (h : Covers m s t) : |t - m * 2 ^ s| ≤ 2 ^ s / 2 := by
  have hgap := gapBelow_le m s
  rw [abs_le]
  constructor
  · linarith [h.lower]
  · linarith [h.upper]

/-- The interval ends below the next power of two. -/
theorem lt_pow (h : Covers m s t) (hm : m < 2 ^ 53) : t < 2 ^ 53 * 2 ^ s := by
  have hpos : (0 : ℚ) < 2 ^ s := by positivity
  have hle : (m : ℚ) ≤ 2 ^ 53 - 1 := by
    have : m + 1 ≤ 2 ^ 53 := hm
    have hcast : ((m + 1 : Nat) : ℚ) ≤ (2 ^ 53 : Nat) := Nat.cast_le.2 this
    push_cast at hcast
    linarith
  have hmul := mul_le_mul_of_nonneg_right hle hpos.le
  linarith [h.upper]

end Covers

/-- A double is in its own interval. -/
theorem covers_self (m s : Nat) : Covers m s (m * 2 ^ s) := by
  have hpos : (0 : ℚ) < 2 ^ s := by positivity
  have hgap : 0 < gapBelow m s := by
    unfold gapBelow
    split
    · linarith
    · linarith
  exact ⟨by linarith, by linarith, fun _ => ⟨by linarith, by linarith⟩⟩

/-- Units as a quotient, in whole numbers. -/
theorem cast_eq_mul {t : ℚ} (hden : 0 < den) (ht : t = num / den) : (num : ℚ) = t * den := by
  have hpos : (0 : ℚ) < den := Nat.cast_pos.2 hden
  rw [ht, div_mul_cancel₀ _ hpos.ne']

/-- Rounding with a known number of dropped bits. -/
theorem roundedUnits_eq (hden : 0 < den) {r s : Nat} {t : ℚ} (ht : t = num / den)
    (hlt : t < 2 ^ 53 * 2 ^ s) (hle : 0 < s → 2 ^ 52 * 2 ^ s ≤ t)
    (hlow : r * 2 ^ s - 2 ^ s / 2 ≤ t) (hhigh : t ≤ r * 2 ^ s + 2 ^ s / 2)
    (hodd : r % 2 = 1 → r * 2 ^ s - 2 ^ s / 2 < t ∧ t < r * 2 ^ s + 2 ^ s / 2) :
    roundedUnits num den = r * 2 ^ s := by
  have hpos : (0 : ℚ) < den := Nat.cast_pos.2 hden
  have hnum := cast_eq_mul hden ht
  have hdropped : dropped num den = s := by
    refine dropped_eq hden ?_ ?_
    · have hmul := mul_lt_mul_of_pos_right hlt hpos
      rw [← hnum] at hmul
      have hcast : (num : ℚ) < ((2 ^ (s + 53) * den : Nat) : ℚ) := by
        push_cast
        rw [pow_add]
        linarith
      exact Nat.cast_lt.1 hcast
    · intro hs
      have hmul := mul_le_mul_of_nonneg_right (hle hs) hpos.le
      rw [← hnum] at hmul
      have hcast : ((2 ^ (s + 52) * den : Nat) : ℚ) ≤ num := by
        push_cast
        rw [pow_add]
        linarith
      exact Nat.cast_le.1 hcast
  have hlowMul := mul_le_mul_of_nonneg_right hlow hpos.le
  have hhighMul := mul_le_mul_of_nonneg_right hhigh hpos.le
  have hround : roundDiv num (den * 2 ^ s) = r := by
    refine roundDiv_eq (by positivity) ?_ ?_ ?_
    · have hcast : ((2 * (r * (den * 2 ^ s)) : Nat) : ℚ) ≤ (2 * num + den * 2 ^ s : Nat) := by
        push_cast
        linarith
      exact Nat.cast_le.1 hcast
    · have hcast : ((2 * num : Nat) : ℚ) ≤ (2 * (r * (den * 2 ^ s)) + den * 2 ^ s : Nat) := by
        push_cast
        linarith
      exact Nat.cast_le.1 hcast
    · intro hr
      have hlowMul := mul_lt_mul_of_pos_right (hodd hr).1 hpos
      have hhighMul := mul_lt_mul_of_pos_right (hodd hr).2 hpos
      constructor
      · have hcast : ((2 * (r * (den * 2 ^ s)) : Nat) : ℚ) < (2 * num + den * 2 ^ s : Nat) := by
          push_cast
          linarith
        exact Nat.cast_lt.1 hcast
      · have hcast : ((2 * num : Nat) : ℚ) < (2 * (r * (den * 2 ^ s)) + den * 2 ^ s : Nat) := by
          push_cast
          linarith
        exact Nat.cast_lt.1 hcast
  rw [roundedUnits, hdropped]
  simp only [Nat.pow_eq]
  rw [hround]

/-- All of the interval of a double rounds to it. -/
theorem roundedUnits_eq_of_covers (hden : 0 < den) {m s : Nat} {t : ℚ} (ht : t = num / den)
    (hc : Canonical m s) (h : Covers m s t) : roundedUnits num den = m * 2 ^ s := by
  obtain ⟨hm, -, hnormal⟩ := hc
  simp only [Nat.pow_eq] at hm hnormal
  have hpos : (0 : ℚ) < 2 ^ s := by positivity
  have hgap := gapBelow_le m s
  by_cases hbelow : m = 2 ^ 52 ∧ 0 < s ∧ t < 2 ^ 52 * 2 ^ s
  · -- below a power of two the steps are half as long
    obtain ⟨hmeq, hs, hlt⟩ := hbelow
    obtain ⟨s, rfl⟩ : ∃ k, s = k + 1 := ⟨s - 1, by omega⟩
    have hpow : (2 : ℚ) ^ (s + 1) = 2 ^ s * 2 := pow_succ 2 s
    have hlower := h.lower
    rw [gapBelow, if_pos ⟨hmeq, hs⟩, hmeq] at hlower
    push_cast at hlower
    rw [hpow] at hlower hlt hpos
    have hround : roundedUnits num den = 2 ^ 53 * 2 ^ s := by
      refine roundedUnits_eq hden ht ?_ ?_ ?_ ?_ ?_
      · linarith
      · intro _
        linarith
      · push_cast
        linarith
      · push_cast
        linarith
      · intro hodd
        exact absurd hodd (by decide)
    rw [hround, hmeq, pow_succ]
    ring
  · refine roundedUnits_eq hden ht (h.lt_pow hm) ?_ (by linarith [h.lower]) h.upper ?_
    · intro hs
      by_cases hmeq : m = 2 ^ 52
      · by_contra hlt
        exact hbelow ⟨hmeq, hs, not_le.1 hlt⟩
      · have hge : 2 ^ 52 + 1 ≤ m := by
          rcases hnormal with hle | hzero
          · omega
          · omega
        have hcast : ((2 ^ 52 + 1 : Nat) : ℚ) ≤ m := Nat.cast_le.2 hge
        push_cast at hcast
        have hmul := mul_le_mul_of_nonneg_right hcast hpos.le
        linarith [h.lower]
    · intro hodd
      obtain ⟨hlow, hhigh⟩ := h.strict hodd
      exact ⟨by linarith, hhigh⟩

/-! ## The error of rounding -/

/-- The part of a number by which rounding moves it at most. -/
def roundoff : ℚ := 1 / 2 ^ 53

theorem abs_roundedUnits_sub_le (hden : 0 < den) {t : ℚ} (ht : t = num / den) :
    |(roundedUnits num den : ℚ) - t| ≤ max (1 / 2) (roundoff * t) := by
  have hpos : (0 : ℚ) < den := Nat.cast_pos.2 hden
  have hnum := cast_eq_mul hden ht
  have hbits : 0 < dropped num den → _ := le_of_dropped_pos hden
  rw [roundedUnits]
  simp only [Nat.pow_eq] at hbits ⊢
  generalize dropped num den = k at hbits ⊢
  have hstep : (0 : ℚ) < 2 ^ k := by positivity
  obtain ⟨hlow, hhigh⟩ := roundDiv_near (show 0 < den * 2 ^ k by positivity) num
  generalize roundDiv num (den * 2 ^ k) = r at hlow hhigh ⊢
  -- in units, the error is half of what is dropped
  have herror : |((r * 2 ^ k : Nat) : ℚ) - t| ≤ 2 ^ k / 2 := by
    have hlow' : ((2 * (r * (den * 2 ^ k)) : Nat) : ℚ) ≤ (2 * num + den * 2 ^ k : Nat) :=
      Nat.cast_le.2 hlow
    have hhigh' : ((2 * num : Nat) : ℚ) ≤ (2 * (r * (den * 2 ^ k)) + den * 2 ^ k : Nat) :=
      Nat.cast_le.2 hhigh
    push_cast at hlow' hhigh' ⊢
    rw [hnum] at hlow' hhigh'
    rw [abs_le]
    constructor
    · refine le_of_mul_le_mul_right ?_ hpos
      linarith
    · refine le_of_mul_le_mul_right ?_ hpos
      linarith
  refine le_trans herror ?_
  rcases Nat.eq_zero_or_pos k with hzero | hk
  · rw [hzero, pow_zero]
    exact le_max_left _ _
  · refine le_trans ?_ (le_max_right _ _)
    have hcast : ((2 ^ (k + 52) * den : Nat) : ℚ) ≤ num := Nat.cast_le.2 (hbits hk)
    push_cast at hcast
    rw [hnum] at hcast
    have hle := le_of_mul_le_mul_right hcast hpos
    rw [pow_add] at hle
    rw [roundoff]
    linarith

end Criteria.Number.Binary64
