import Criteria.Payload.Fault
import Criteria.Text.Ascii

set_option autoImplicit false

/-! # Scalars of a payload

Readers of JSON strings, numbers and words. Each starts behind the first character of its token and
gives back the rest of the text, or the place where it stopped. Strings and numbers have two
readers: one for values that are wanted, and one for values that are skipped, which checks the form
alone.

A number that is not a 64-bit integer becomes a double from its first digits: they are collected
while they fit 64 bits, further ones only move the decimal point or are dropped, and the result is
scaled once by a power of ten. It is close to the number that was written, not always the closest
double. -/

namespace Criteria.Payload

open Number

/-! ## Stopping -/

/-- Stops before the next byte, which counts as seen. -/
def stopAt {α : Type} (cause : Cause) (cs : List Char) : Except Stop α :=
  .error ⟨cause, cs, 1⟩

/-- Stops after what has been consumed. -/
def stopAfter {α : Type} (cause : Cause) (cs : List Char) : Except Stop α :=
  .error ⟨cause, cs, 0⟩

/-! ## Blanks and words -/

/-- The characters that may stand between tokens. -/
def isSpace (c : Char) : Bool := c == ' ' || c == '\n' || c == '\t' || c == '\r'

/-- The text from the next token on. -/
def skipSpace (cs : List Char) : List Char := cs.dropWhile isSpace

/-- The rest of a word. -/
def readWord : List Char → List Char → Except Stop (List Char)
  | [], cs => .ok cs
  | _ :: _, [] => stopAfter .endInValue []
  | w :: ws, c :: cs => if c = w then readWord ws cs else stopAt .expectedWord (c :: cs)

/-! ## Strings -/

/-- Four hexadecimal digits. The bytes, not the characters, of what stands there count. -/
def readHex (cs : List Char) : Except Stop (Nat × List Char) :=
  if byteLength (cs.take 4) < 4 then stopAfter .endInText []
  else match Text.hexNumber? (cs.take 4) with
    | some n => .ok (n, cs.drop 4)
    | none => .error ⟨.invalidEscape, cs, 4⟩

/-- The second half of a character beyond the basic plane, whose first half was `high`. -/
def readLowHalf (high : Nat) : List Char → Except Stop (Char × List Char)
  | [] => stopAfter .endInText []
  | '\\' :: [] => stopAfter .endInText []
  | '\\' :: 'u' :: cs => do
      let (low, rest) ← readHex cs
      if 0xDC00 ≤ low ∧ low ≤ 0xDFFF then
        return (Char.ofNat (0x10000 + (high - 0xD800) * 0x400 + (low - 0xDC00)), rest)
      else stopAfter .loneSurrogate rest
  | '\\' :: cs => stopAt .endOfHexEscape cs
  | cs => stopAt .endOfHexEscape cs

/-- The characters that a backslash and one letter stand for. -/
def letterEscape? (c : Char) : Option Char :=
  match c with
  | '"' => some '"'
  | '\\' => some '\\'
  | '/' => some '/'
  | 'b' => some '\x08'
  | 'f' => some '\x0c'
  | 'n' => some '\n'
  | 'r' => some '\r'
  | 't' => some '\t'
  | _ => none

/-- An escape, behind its backslash. -/
def readEscape : List Char → Except Stop (Char × List Char)
  | [] => stopAfter .endInText []
  | 'u' :: cs => do
      let (n, rest) ← readHex cs
      if 0xDC00 ≤ n ∧ n ≤ 0xDFFF then stopAfter .loneSurrogate rest
      else if 0xD800 ≤ n ∧ n ≤ 0xDBFF then readLowHalf n rest
      else return (Char.ofNat n, rest)
  | c :: cs => match letterEscape? c with
      | some e => .ok (e, cs)
      | none => stopAt .invalidEscape (c :: cs)

/-- The characters of a string up to its closing quote; `fuel` bounds their number. -/
def readCharsWith : Nat → List Char → Except Stop (List Char × List Char)
  | 0, cs => stopAfter .endInText cs
  | _ + 1, [] => stopAfter .endInText []
  | fuel + 1, c :: cs =>
      if c = '"' then .ok ([], cs)
      else if c = '\\' then do
        let (e, rest) ← readEscape cs
        let (es, rest) ← readCharsWith fuel rest
        return (e :: es, rest)
      else if c < ' ' then stopAt .controlCharacter (c :: cs)
      else do
        let (es, rest) ← readCharsWith fuel cs
        return (c :: es, rest)

/-- The characters of a string, behind its opening quote. -/
def readChars (cs : List Char) : Except Stop (List Char × List Char) :=
  readCharsWith (cs.length + 1) cs

/-- An escape of a skipped string, behind its backslash; halves of characters are not paired. -/
def skipEscape : List Char → Except Stop (List Char)
  | [] => stopAfter .endInText []
  | 'u' :: cs => do
      let (_, rest) ← readHex cs
      return rest
  | c :: cs => match letterEscape? c with
      | some _ => .ok cs
      | none => stopAt .invalidEscape (c :: cs)

/-- What follows a skipped string; `fuel` bounds the number of its characters. -/
def skipCharsWith : Nat → List Char → Except Stop (List Char)
  | 0, cs => stopAfter .endInText cs
  | _ + 1, [] => stopAfter .endInText []
  | fuel + 1, c :: cs =>
      if c = '"' then .ok cs
      else if c = '\\' then do skipCharsWith fuel (← skipEscape cs)
      else if c < ' ' then stopAfter .controlCharacter (c :: cs)
      else skipCharsWith fuel cs

/-- What follows a skipped string, behind its opening quote. -/
def skipChars (cs : List Char) : Except Stop (List Char) := skipCharsWith (cs.length + 1) cs

/-! ## Numbers -/

/-- A number that was read: an integer of at most 64 bits with or without a sign, or a double. -/
inductive Numeric where
  | int (i : Int)
  | float (x : Binary64)
deriving DecidableEq

/-- The text starts with a digit. -/
def startsWithDigit : List Char → Bool
  | c :: _ => c.isDigit
  | [] => false

/-- The first digits of a number as an integer, while they fit 64 bits. -/
def takeFitting (significand : Nat) : List Char → Nat × List Char
  | [] => (significand, [])
  | c :: cs =>
      if c.isDigit then
        let next := significand * 10 + (c.toNat - '0'.toNat)
        if next < UInt64.size then takeFitting next cs else (significand, c :: cs)
      else (significand, c :: cs)

/-- A power of ten as a double. -/
def powerOfTen (exponent : Nat) : Binary64 :=
  Binary64.ofNat (Nat.pow 10 exponent)

/-- The greatest power of ten that is a double. -/
def maxPower : Nat := 308

/-- A double times a power of ten, in one multiplication or division, unless the number is so small
that it has to be divided by the greatest power first, as often as `fuel` allows. Nothing is beyond
the largest double. -/
def scaleByTen? : Nat → Binary64 → Int → Option Binary64
  | 0, x, _ => some x
  | fuel + 1, x, exponent =>
      if exponent.natAbs ≤ maxPower then
        if 0 ≤ exponent then
          (some (x.mul (powerOfTen exponent.natAbs))).filter Binary64.isFinite
        else some (x.div (powerOfTen exponent.natAbs))
      else if x.isZero then some x
      else if 0 ≤ exponent then none
      else scaleByTen? fuel (x.div (powerOfTen maxPower)) (exponent + maxPower)

/-- The double of a sign, digits and an exponent, which end before `rest`. -/
def finishFloat (negative : Bool) (significand : Nat) (exponent : Int) (rest : List Char) :
    Except Stop (Numeric × List Char) :=
  match scaleByTen? 4 (Binary64.ofNat significand) exponent with
  | some x => .ok (.float (if negative then x.neg else x), rest)
  | none => stopAfter .numberOutOfRange rest

/-- The digits of an exponent, which has the given value so far, while it fits 32 bits. An exponent
that does not is out of range or makes the number zero. -/
def readExponentDigits (negative : Bool) (significand : Nat) (point : Int) (down : Bool)
    (exponent : Nat) : List Char → Except Stop (Numeric × List Char)
  | [] => finish []
  | c :: cs =>
      if c.isDigit then
        let next := exponent * 10 + (c.toNat - '0'.toNat)
        if next < 2147483648 then readExponentDigits negative significand point down next cs
        else if significand ≠ 0 ∧ down = false then stopAfter .numberOutOfRange cs
        else .ok (.float (Binary64.zero negative), (takeDigits cs).2)
      else finish (c :: cs)
where
  /-- The double once all digits of the exponent are read. -/
  finish (rest : List Char) : Except Stop (Numeric × List Char) :=
    finishFloat negative significand (if down then point - exponent else point + exponent) rest

/-- An exponent, behind its mark, of a number whose digits end at the power `point` of ten. -/
def readExponent (negative : Bool) (significand : Nat) (point : Int) (cs : List Char) :
    Except Stop (Numeric × List Char) :=
  let (down, digits) := takeSign cs
  match digits with
  | [] => stopAfter .endInValue []
  | c :: _ =>
      if c.isDigit then readExponentDigits negative significand point down 0 digits
      else stopAt .invalidNumber digits

/-- The end of a double, which may have an exponent. -/
def readFloatEnd (negative : Bool) (significand : Nat) (point : Int) :
    List Char → Except Stop (Numeric × List Char)
  | 'e' :: cs => readExponent negative significand point cs
  | 'E' :: cs => readExponent negative significand point cs
  | cs => finishFloat negative significand point cs

/-- A fraction, behind the decimal point, of a number whose digits end at the power `point` of
ten. Digits that do not fit are dropped. -/
def readFraction (negative : Bool) (significand : Nat) (point : Int) (cs : List Char) :
    Except Stop (Numeric × List Char) :=
  if startsWithDigit cs then
    let (all, rest) := takeFitting significand cs
    let taken := cs.length - rest.length
    readFloatEnd negative all (point - taken) (takeDigits rest).2
  else if cs.isEmpty then stopAfter .endInValue []
  else stopAt .invalidNumber cs

/-- A number from its first digit on, behind an optional minus sign. -/
def readNumber (negative : Bool) (cs : List Char) : Except Stop (Numeric × List Char) :=
  match cs with
  | [] => stopAfter .endInValue []
  | c :: after =>
      if !c.isDigit then stopAt .invalidNumber cs
      else if c = '0' ∧ startsWithDigit after = true then stopAt .invalidNumber after
      else
        let (significand, rest) := takeFitting 0 cs
        let (more, rest) := takeDigits rest
        let point : Int := more.length
        match rest with
        | '.' :: r => readFraction negative significand point r
        | 'e' :: r => readExponent negative significand point r
        | 'E' :: r => readExponent negative significand point r
        | _ =>
            if !more.isEmpty then finishFloat negative significand point rest
            else if !negative then .ok (.int significand, rest)
            else if significand = 0 ∨ 9223372036854775808 < significand then
              .ok (.float (Binary64.ofNat significand).neg, rest)
            else .ok (.int (-(significand : Int)), rest)

/-- At least one digit of a skipped number. -/
def skipSomeDigits (cs : List Char) : Except Stop (List Char) :=
  if startsWithDigit cs then .ok (takeDigits cs).2 else stopAt .invalidNumber cs

/-- The end of a skipped number, which may have an exponent. -/
def skipExponent : List Char → Except Stop (List Char)
  | 'e' :: cs => skipSomeDigits (takeSign cs).2
  | 'E' :: cs => skipSomeDigits (takeSign cs).2
  | cs => .ok cs

/-- What follows the digits in front of the point of a skipped number. -/
def skipFraction : List Char → Except Stop (List Char)
  | '.' :: cs => do skipExponent (← skipSomeDigits cs)
  | cs => skipExponent cs

/-- The digits in front of the point of a skipped number: a zero alone, or more that start with
another digit. -/
def skipWhole : List Char → Except Stop (List Char)
  | '0' :: cs => if startsWithDigit cs then stopAt .invalidNumber cs else .ok cs
  | cs => skipSomeDigits cs

/-- What follows a skipped number, from its first digit on. -/
def skipNumber (cs : List Char) : Except Stop (List Char) := do
  skipFraction (← skipWhole cs)

end Criteria.Payload
