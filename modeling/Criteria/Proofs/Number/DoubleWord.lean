import Criteria.Number.Binary64.Word
import Criteria.Proofs.Number.Rounding
import Mathlib.Data.Rat.Cast.Order
import Mathlib.Tactic.FieldSimp

set_option autoImplicit false

/-! # Which doubles are words

Both bounds that a double is compared with are exact: the double of the least word is that word, and
the double of the greatest word is the number behind it (`units?_greatest`). Between them lie the
whole numbers that fit a word and no others (`inBounds_iff`), so the guard lets through only doubles
that are cut without loss: the word has the exact value of the double (`toWord?_eq_some_iff`). -/

namespace Criteria.Number

/-- An integer that fits a word is the word. -/
theorem toInt_nearestWord {i : Int} (h : FitsWord i) : (nearestWord i).toInt = i := by
  have hleast : ¬ i < Int64.minValue.toInt := Int.not_lt.2 h.1
  have hgreatest : ¬ Int64.maxValue.toInt < i := Int.not_lt.2 h.2
  rw [nearestWord, if_neg hleast, if_neg hgreatest]
  have hword : word? i = some (Int64.ofInt i) := if_pos h
  exact word?_eq_some_iff.1 hword

namespace Binary64

/-- The exact value of a double that is finite: its units of `2⁻¹⁰⁷⁴`, as a number. -/
def value? : Binary64 → Option ℚ
  | .finite negative m s _ =>
      let magnitude : ℚ := m * 2 ^ s / unitsPerOne
      some (if negative then -magnitude else magnitude)
  | _ => none

/-! ## The bounds -/

theorem units?_least :
    (ofInt Int64.minValue.toInt).units? = some (-9223372036854775808 * (unitsPerOne : Int)) := by
  decide +kernel

theorem units?_greatest :
    (ofInt Int64.maxValue.toInt).units? = some (9223372036854775808 * (unitsPerOne : Int)) := by
  decide +kernel

variable {x y : Binary64} {u v : Int}

theorem compare_of_units? (hx : x.units? = some u) (hy : y.units? = some v) :
    x.compare y = some (Ord.compare u v) := by
  rw [Binary64.compare, hx, hy]
  rfl

theorem isLess_iff (hx : x.units? = some u) (hy : y.units? = some v) :
    x.isLess y = true ↔ u < v := by
  rw [isLess, compare_of_units? hx hy, beq_iff_eq, Option.some.injEq]
  exact Int.compare_eq_lt

theorem isAtLeast_iff (hx : x.units? = some u) (hy : y.units? = some v) :
    x.isAtLeast y = true ↔ v ≤ u := by
  rw [isAtLeast, compare_of_units? hx hy, Bool.or_eq_true, beq_iff_eq, beq_iff_eq,
    Option.some.injEq, Option.some.injEq, Int.compare_eq_gt, Int.compare_eq_eq]
  omega

/-- Between the bounds lie the whole numbers that fit a word. -/
theorem inBounds_iff {i : Int} (hx : x.units? = some (i * unitsPerOne)) :
    (x.isAtLeast (ofInt Int64.minValue.toInt) = true ∧
      x.isLess (ofInt Int64.maxValue.toInt) = true) ↔ FitsWord i := by
  have hone : (0 : Int) < unitsPerOne := Int.natCast_pos.2 unitsPerOne_pos
  rw [isAtLeast_iff hx units?_least, isLess_iff hx units?_greatest,
    Int.mul_le_mul_right hone, Int.mul_lt_mul_right hone]
  exact and_congr_right fun _ => Int.lt_add_one_iff (b := 9223372036854775807)

/-! ## Cutting without loss -/

/-- A signed number of units is a whole number of ones if its size is one. -/
theorem signed_eq_mul_iff {units one : Nat} (hone : 0 < one) (negative : Bool) (i : Int) :
    (if negative then -(units : Int) else units) = i * one ↔
      units % one = 0 ∧
        (if negative then -((units / one : Nat) : Int) else (units / one : Nat)) = i := by
  have hcast : (0 : Int) < one := Int.natCast_pos.2 hone
  constructor
  · intro h
    have hsize : units = i.natAbs * one := by
      have habs := congrArg Int.natAbs h
      rw [Int.natAbs_mul, Int.natAbs_natCast] at habs
      rw [← habs]
      split
      · rw [Int.natAbs_neg, Int.natAbs_natCast]
      · rw [Int.natAbs_natCast]
    refine ⟨by rw [hsize, Nat.mul_mod_left], ?_⟩
    refine Int.eq_of_mul_eq_mul_right hcast.ne' ?_
    rw [← h, hsize, Nat.mul_div_cancel _ hone]
    split
    · rw [Int.neg_mul, Int.natCast_mul]
    · exact (Int.natCast_mul _ _).symm
  · rintro ⟨hwhole, rfl⟩
    have hunits : ((units / one : Nat) : Int) * one = units := by
      exact_mod_cast Nat.div_mul_cancel (Nat.dvd_of_mod_eq_zero hwhole)
    split
    · rw [Int.neg_mul, hunits]
    · exact hunits.symm

/-- The guarded cut is the exact integer, where it is one and fits. -/
theorem toWord?_eq (x : Binary64) : x.toWord? = x.toInt?.bind word? := by
  cases x with
  | infinite negative => rfl
  | nan => rfl
  | finite negative m s hc =>
      rw [toWord?, toInt?]
      by_cases hwhole : m * Nat.pow 2 s % unitsPerOne = 0
      · have hunits := (signed_eq_mul_iff unitsPerOne_pos negative _).2 ⟨hwhole, rfl⟩
        have hbounds := inBounds_iff (x := finite negative m s hc) (congrArg some hunits)
        rw [if_pos hwhole, Option.bind_some]
        simp only [isFinite, isWhole, hwhole, toWord, BEq.rfl, Bool.true_and, Bool.and_eq_true]
        generalize (if negative then -((m * Nat.pow 2 s / unitsPerOne : Nat) : Int)
          else (m * Nat.pow 2 s / unitsPerOne : Nat)) = i at hbounds ⊢
        by_cases hfits : FitsWord i
        · rw [if_pos (hbounds.2 hfits)]
          exact (word?_eq_some_iff.2 (toInt_nearestWord hfits)).symm
        · rw [if_neg (mt hbounds.1 hfits)]
          exact (if_neg hfits).symm
      · have hnot : (finite negative m s hc).isWhole = false := by simpa [isWhole] using hwhole
        rw [if_neg hwhole, hnot]
        simp

/-- The exact value is an integer if the units are that many ones. -/
theorem value?_eq_some_intCast_iff (x : Binary64) (i : Int) :
    x.value? = some (i : ℚ) ↔ x.toInt? = some i := by
  cases x with
  | infinite negative => simp [value?, toInt?]
  | nan => simp [value?, toInt?]
  | finite negative m s hc =>
      have hone : ((unitsPerOne : Nat) : ℚ) ≠ 0 := Nat.cast_ne_zero.2 unitsPerOne_pos.ne'
      have hcast : ((if negative then -((m * Nat.pow 2 s : Nat) : Int)
          else (m * Nat.pow 2 s : Nat) : Int) : ℚ) =
          (if negative then -((m : ℚ) * 2 ^ s) else (m : ℚ) * 2 ^ s) := by
        split <;> simp
      have hunits : (finite negative m s hc).value? = some (i : ℚ) ↔
          (if negative then -((m * Nat.pow 2 s : Nat) : Int)
            else (m * Nat.pow 2 s : Nat) : Int) = i * unitsPerOne := by
        rw [value?, Option.some.injEq, ← Int.cast_inj (α := ℚ), hcast, Int.cast_mul,
          Int.cast_natCast, ← div_eq_iff hone]
        split
        · rw [neg_div]
        · rfl
      rw [hunits, signed_eq_mul_iff unitsPerOne_pos, toInt?, Option.ite_none_right_eq_some,
        Option.some.injEq]

theorem value?_zero (negative : Bool) : (zero negative).value? = some ((0 : Int) : ℚ) := by
  have hzero : ∀ negative, (zero negative).toInt? = some 0 := by decide +kernel
  exact (value?_eq_some_intCast_iff _ 0).2 (hzero negative)

/-- A double is a word if and only if that is its exact value. -/
theorem toWord?_eq_some_iff (x : Binary64) (w : Int64) :
    x.toWord? = some w ↔ x.value? = some (w.toInt : ℚ) := by
  rw [toWord?_eq, value?_eq_some_intCast_iff, Option.bind_eq_some_iff]
  constructor
  · rintro ⟨i, hi, hw⟩
    rw [hi, word?_eq_some_iff.1 hw]
  · intro hw
    exact ⟨w.toInt, hw, word?_eq_some_iff.2 rfl⟩

end Binary64

end Criteria.Number
