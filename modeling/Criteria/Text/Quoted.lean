import Criteria.Text.Ascii
import Criteria.Text.Hidden

set_option autoImplicit false

/-! # Quoted text

A text inside a message or a rendered filter stands between double quotes. A quote, a backslash
and the five control characters that have a letter are escaped by a backslash; every other hidden
character is written as its code point in braces, in lower-case hexadecimal digits without leading
zeros. -/

namespace Criteria.Text

/-- How one character is written between quotes. -/
def quoteChar (c : Char) : List Char :=
  if c = '"' then ['\\', '"']
  else if c = '\\' then ['\\', '\\']
  else if c = '\n' then ['\\', 'n']
  else if c = '\r' then ['\\', 'r']
  else if c = '\t' then ['\\', 't']
  else if c = '\x00' then ['\\', '0']
  else if isHidden c then '\\' :: 'u' :: '\x7b' :: Nat.toDigits 16 c.toNat ++ ['\x7d']
  else [c]

/-- The characters of a text between double quotes. -/
def quoteChars (cs : List Char) : List Char := '"' :: cs.flatMap quoteChar ++ ['"']

/-- The text between double quotes. -/
def quoted (s : String) : String := String.ofList (quoteChars s.toList)

end Criteria.Text
