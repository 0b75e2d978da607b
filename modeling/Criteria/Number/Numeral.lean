set_option autoImplicit false

/-! # Decimal numerals

Runs of decimal digits and the numbers they write. Readers take the characters of a text and give
back what they have not read; a number is written with the fewest digits, or with leading zeros up
to a given width. -/

namespace Criteria.Number

/-! ## Writing -/

/-- The decimal digits of a number, without leading zeros. -/
def natDigits (n : Nat) : List Char := Nat.toDigits 10 n

/-- The decimal digits of a number, filled up with leading zeros to at least the given width. -/
def padded (width n : Nat) : List Char :=
  List.replicate (width - (natDigits n).length) '0' ++ natDigits n

/-- An integer: a minus sign if it is negative, then the digits of its magnitude. -/
def intDigits (i : Int) : List Char :=
  if i < 0 then '-' :: natDigits i.natAbs else natDigits i.natAbs

/-! ## Reading -/

/-- The number that decimal digits write, the most significant first. -/
def digitsValue (ds : List Char) : Nat := Nat.ofDigitChars 10 ds 0

/-- The longest run of digits at the start, and what follows it. -/
def takeDigits (cs : List Char) : List Char × List Char :=
  (cs.takeWhile Char.isDigit, cs.dropWhile Char.isDigit)

/-- The number written by a text of digits alone, at least one. -/
def readNat? (cs : List Char) : Option Nat :=
  if cs.isEmpty || !cs.all Char.isDigit then none else some (digitsValue cs)

/-- An optional sign at the start: whether it was a minus, and what follows it. -/
def takeSign : List Char → Bool × List Char
  | '-' :: cs => (true, cs)
  | '+' :: cs => (false, cs)
  | cs => (false, cs)

/-- The integer written by an optional sign and digits, at least one. -/
def readInt? (cs : List Char) : Option Int :=
  let (negative, digits) := takeSign cs
  (readNat? digits).map fun n => if negative then -(n : Int) else n

/-- Exactly `count` digits at the start, as a number, and what follows them. -/
def takeExact? (count : Nat) (cs : List Char) : Option (Nat × List Char) :=
  let ds := cs.take count
  if ds.length = count ∧ ds.all Char.isDigit = true then some (digitsValue ds, cs.drop count)
  else none

/-- Between one and `most` digits at the start, as many as there are, and what follows them. -/
def takeUpTo? (most : Nat) (cs : List Char) : Option (Nat × List Char) :=
  let ds := (cs.take most).takeWhile Char.isDigit
  if ds.isEmpty then none else some (digitsValue ds, cs.drop ds.length)

theorem digitsValue_natDigits (n : Nat) : digitsValue (natDigits n) = n := by
  simp [digitsValue, natDigits]

theorem takeDigits_append (cs : List Char) : (takeDigits cs).1 ++ (takeDigits cs).2 = cs := by
  simp [takeDigits]

end Criteria.Number
