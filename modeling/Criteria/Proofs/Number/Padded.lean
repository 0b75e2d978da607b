import Criteria.Proofs.Payload.Doubles

set_option autoImplicit false

/-! # Digits of a fixed width

Dates, times and fractions are written with leading zeros up to a width. Such digits write the
number (`digitsValue_padded`), and they have exactly the width if the number has no more digits
(`length_padded`). -/

namespace Criteria.Number

open Payload (isDigit_natDigits isDigit_zeros digitsValue_zeros_append)

variable {width n : Nat} {c : Char}

theorem isDigit_of_mem_padded (h : c ∈ padded width n) : c.isDigit = true :=
  (List.mem_append.1 h).elim isDigit_zeros isDigit_natDigits

theorem digitsValue_padded (width n : Nat) : digitsValue (padded width n) = n := by
  rw [padded, digitsValue_zeros_append, digitsValue_natDigits]

theorem length_padded_eq_max (width n : Nat) :
    (padded width n).length = max width (natDigits n).length := by
  rw [padded, List.length_append, List.length_replicate]
  omega

theorem le_length_padded (width n : Nat) : width ≤ (padded width n).length := by
  rw [length_padded_eq_max]
  exact Nat.le_max_left _ _

theorem length_padded (hwidth : 0 < width) (h : n < 10 ^ width) :
    (padded width n).length = width := by
  rw [length_padded_eq_max, Nat.max_eq_left]
  exact (Nat.length_toDigits_le_iff (by decide) hwidth).2 h

end Criteria.Number
