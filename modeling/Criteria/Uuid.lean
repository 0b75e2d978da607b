import Criteria.Text.Ascii

set_option autoImplicit false

/-! # Universally unique identifiers

An identifier is a 128-bit number. It is written as 32 lower-case hexadecimal digits in five groups;
it is read from digits in either case, grouped or not, and grouped also in braces or after
`urn:uuid:`. -/

namespace Criteria

/-- A 128-bit identifier. -/
structure Uuid where
  value : Nat
  value_lt : value < Nat.pow 2 128
deriving DecidableEq

namespace Uuid

open Text

instance : Inhabited Uuid := ⟨⟨0, by decide⟩⟩

/-- The identifier with this value, if it fits. -/
def ofValue? (n : Nat) : Option Uuid := if h : n < Nat.pow 2 128 then some ⟨n, h⟩ else none

/-- Identifiers are ordered as numbers, which is the order of their digits. -/
def compare (a b : Uuid) : Ordering := Ord.compare a.value b.value

/-! ## Writing -/

/-- The characters in groups of the given sizes, with a hyphen between groups. -/
def grouped : List Nat → List Char → List Char
  | [], cs => cs
  | [_], cs => cs
  | n :: ns, cs => cs.take n ++ '-' :: grouped ns (cs.drop n)

/-- The sizes of the groups of digits. -/
def groupSizes : List Nat := [8, 4, 4, 4, 12]

/-- The characters of an identifier. -/
def chars (u : Uuid) : List Char := grouped groupSizes (hexDigits 32 u.value)

/-- The text of an identifier. -/
def text (u : Uuid) : String := String.ofList u.chars

/-! ## Reading -/

/-- The characters without the hyphens between groups of the given sizes, if all are in place. -/
def ungrouped? : List Nat → List Char → Option (List Char)
  | [], cs => if cs.isEmpty then some [] else none
  | [n], cs => if cs.length = n then some cs else none
  | n :: ns, cs =>
      match cs.drop n with
      | '-' :: rest => (ungrouped? ns rest).map (cs.take n ++ ·)
      | _ => none

/-- An identifier as 32 digits. -/
def readDigits? (cs : List Char) : Option Uuid :=
  if cs.length = 32 then (hexNumber? cs).bind ofValue? else none

/-- An identifier as five groups of digits. -/
def readGrouped? (cs : List Char) : Option Uuid := (ungrouped? groupSizes cs).bind readDigits?

/-- An identifier in any of its forms. -/
def read? (cs : List Char) : Option Uuid :=
  match cs with
  | '\x7b' :: rest =>
      if rest.getLast? = some '\x7d' then readGrouped? rest.dropLast else none
  | _ =>
      if (cs.take 9).map Char.toLower = "urn:uuid:".toList then readGrouped? (cs.drop 9)
      else if cs.length = 32 then readDigits? cs
      else readGrouped? cs

end Uuid

end Criteria
