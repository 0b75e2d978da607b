import Criteria.Number.Numeral

set_option autoImplicit false

/-! # 64-bit integers

An integer value is a signed 64-bit word. `word?` is the only way into the range: an integer
outside of it is refused and never wrapped. -/

namespace Criteria.Number

/-- The integer fits a signed 64-bit word. -/
abbrev FitsWord (i : Int) : Prop := -9223372036854775808 ≤ i ∧ i ≤ 9223372036854775807

/-- The word that holds an integer, if one does. -/
def word? (i : Int) : Option Int64 := if FitsWord i then some (Int64.ofInt i) else none

/-- The word written by an optional sign and digits. -/
def readWord? (cs : List Char) : Option Int64 := (readInt? cs).bind word?

/-- The decimal digits of a word. -/
def wordDigits (w : Int64) : List Char := intDigits w.toInt

theorem word?_eq_some_iff {i : Int} {w : Int64} : word? i = some w ↔ w.toInt = i := by
  unfold word?
  constructor
  · intro h
    by_cases hi : FitsWord i
    · rw [if_pos hi] at h
      cases h
      rw [Int64.toInt_ofInt]
      exact Int.bmod_eq_of_le (by simp [Int64.size]; omega) (by simp [Int64.size]; omega)
    · rw [if_neg hi] at h
      cases h
  · rintro rfl
    have lo := w.le_toInt
    have hi := w.toInt_lt
    rw [if_pos (by constructor <;> omega), Int64.ofInt_toInt]

end Criteria.Number
