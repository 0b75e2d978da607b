set_option autoImplicit false

/-! # ASCII letters and digits

Names, tokens and keywords are compared without regard to the case of their ASCII letters; no
other letter has a second spelling. Hexadecimal digits are read in either case and written in
lower case. -/

namespace Criteria.Text

/-! ## Case -/

/-- The characters with every ASCII capital replaced by its small letter. -/
def foldCase (s : String) : List Char := s.toList.map Char.toLower

/-- Two texts are the same up to the case of ASCII letters. -/
def sameLetters (a b : String) : Bool := foldCase a == foldCase b

theorem sameLetters_iff (a b : String) : sameLetters a b = true ↔ foldCase a = foldCase b := by
  simp [sameLetters]

/-- A text is a word without capitals, in any case, if its small letters make the word. -/
theorem sameLetters_iff_of_lower (word s : String) (hword : foldCase word = word.toList) :
    sameLetters word s = true ↔ String.ofList (foldCase s) = word := by
  rw [sameLetters_iff, hword, ← String.toList_inj, String.toList_ofList, eq_comm]

/-! ## Hexadecimal digits -/

/-- The value of a hexadecimal digit in either case. -/
def hexValue? (c : Char) : Option Nat :=
  if '0' ≤ c ∧ c ≤ '9' then some (c.toNat - 48)
  else if 'a' ≤ c ∧ c ≤ 'f' then some (c.toNat - 87)
  else if 'A' ≤ c ∧ c ≤ 'F' then some (c.toNat - 55)
  else none

/-- The number that hexadecimal digits write, the most significant first. -/
def hexNumber? (cs : List Char) : Option Nat :=
  cs.foldl (fun acc c => do return (← acc) * 16 + (← hexValue? c)) (some 0)

/-- The last `width` hexadecimal digits of a number, the most significant first. -/
def hexDigits : Nat → Nat → List Char
  | 0, _ => []
  | width + 1, n => hexDigits width (n / 16) ++ [Nat.digitChar (n % 16)]

theorem length_hexDigits (width n : Nat) : (hexDigits width n).length = width := by
  induction width generalizing n with
  | zero => rfl
  | succ w ih => simp [hexDigits, ih]

end Criteria.Text
