import Criteria.Number.Binary64.Text
import Criteria.Number.Word
import Criteria.Time.Date
import Criteria.Toml.Document

set_option autoImplicit false

/-! # Tokens of TOML

Readers of the smallest parts of a text: keys, strings, numbers and moments. Each gives what it read
and the rest of the text, or nothing if the text is not well formed. -/

namespace Criteria.Toml

open Number

/-! ## Characters -/

/-- A blank within a line. -/
def isBlank (c : Char) : Bool := c == ' ' || c == '\t'

/-- A character that may stand in a comment or a string: no control character but the tab. -/
def isPlain (c : Char) : Bool := c == '\t' || (0x20 ≤ c.toNat && c.toNat != 0x7F)

/-- A character of a key without quotes. -/
def isKeyChar (c : Char) : Bool := c.isAlphanum || c == '_' || c == '-'

/-- The text without the blanks before it. -/
def skipBlanks (cs : List Char) : List Char := cs.dropWhile isBlank

/-- What follows a line break at the start. -/
def afterBreak? : List Char → Option (List Char)
  | '\n' :: cs => some cs
  | '\r' :: '\n' :: cs => some cs
  | _ => none

/-- What follows blanks, comments and line breaks; a comment ends in a line break. -/
def skipTrivia (comment : Bool) : List Char → Option (List Char)
  | [] => if comment then none else some []
  | '\n' :: cs => skipTrivia false cs
  | '\r' :: '\n' :: cs => skipTrivia false cs
  | c :: cs =>
      if comment then if isPlain c then skipTrivia true cs else none
      else if isBlank c then skipTrivia false cs
      else if c = '#' then skipTrivia true cs
      else some (c :: cs)

/-- What follows the end of a line: blanks, a comment and a line break, unless the text ends. -/
def endLine? (cs : List Char) : Option (List Char) :=
  let rest := match skipBlanks cs with
    | '#' :: r => r.dropWhile isPlain
    | r => r
  if rest.isEmpty then some [] else afterBreak? rest

/-! ## Strings -/

/-- A character by its number, in so many hexadecimal digits. -/
def takeCode? (width : Nat) (cs : List Char) : Option (Char × List Char) := do
  let digits := cs.take width
  if digits.length < width then none
  else
    let n ← Text.hexNumber? digits
    if n.isValidChar then some (Char.ofNat n, cs.drop width) else none

/-- An escape, behind its backslash. -/
def takeEscape? : List Char → Option (Char × List Char)
  | 'b' :: cs => some ('\x08', cs)
  | 't' :: cs => some ('\t', cs)
  | 'n' :: cs => some ('\n', cs)
  | 'f' :: cs => some ('\x0c', cs)
  | 'r' :: cs => some ('\r', cs)
  | '"' :: cs => some ('"', cs)
  | '\\' :: cs => some ('\\', cs)
  | 'u' :: cs => takeCode? 4 cs
  | 'U' :: cs => takeCode? 8 cs
  | _ => none

/-- The characters of a string in double quotes, behind the first; `fuel` bounds their number. -/
def takeBasic? : Nat → List Char → Option (List Char × List Char)
  | 0, _ => none
  | _ + 1, [] => none
  | fuel + 1, c :: cs =>
      if c = '"' then some ([], cs)
      else if c = '\\' then do
        let (e, rest) ← takeEscape? cs
        let (es, rest) ← takeBasic? fuel rest
        return (e :: es, rest)
      else if isPlain c then do
        let (es, rest) ← takeBasic? fuel cs
        return (c :: es, rest)
      else none

/-- The characters of a string in single quotes, behind the first. -/
def takeLiteral? : List Char → Option (List Char × List Char)
  | [] => none
  | c :: cs =>
      if c = '\'' then some ([], cs)
      else if isPlain c then (takeLiteral? cs).map fun (es, rest) => (c :: es, rest)
      else none

/-- Blanks and line breaks, after a backslash at the end of a line. -/
def skipBreaks : List Char → List Char
  | '\n' :: cs => skipBreaks cs
  | '\r' :: '\n' :: cs => skipBreaks cs
  | c :: cs => if isBlank c then skipBreaks cs else c :: cs
  | [] => []

/-- The characters of a string over several lines between tripled quotes, behind the first three, or
behind some of the characters; `fuel` bounds their number. Up to two quotes may stand before those
that end it. -/
def takeMulti? (quote : Char) : Nat → List Char → Option (List Char × List Char)
  | 0, _ => none
  | _ + 1, [] => none
  | fuel + 1, c :: cs =>
      if c = quote then
        let run := (c :: cs).takeWhile (· == quote)
        let rest := (c :: cs).drop (min run.length 5)
        if 3 ≤ run.length then some (List.replicate (min run.length 5 - 3) quote, rest)
        else do
          let (es, rest) ← takeMulti? quote fuel rest
          return (run ++ es, rest)
      else if c = '\\' ∧ quote = '"' then
        match afterBreak? (skipBlanks cs) with
        | some rest => takeMulti? quote fuel (skipBreaks rest)
        | none => do
            let (e, rest) ← takeEscape? cs
            let (es, rest) ← takeMulti? quote fuel rest
            return (e :: es, rest)
      else match afterBreak? (c :: cs) with
        | some rest => do
            let (es, rest) ← takeMulti? quote fuel rest
            return ('\n' :: es, rest)
        | none =>
            if isPlain c then do
              let (es, rest) ← takeMulti? quote fuel cs
              return (c :: es, rest)
            else none

/-- A string of any form. -/
def takeString? (cs : List Char) : Option (String × List Char) := do
  let (text, rest) ← match cs with
    | '"' :: '"' :: '"' :: r => takeMulti? '"' (r.length + 1) ((afterBreak? r).getD r)
    | '\'' :: '\'' :: '\'' :: r => takeMulti? '\'' (r.length + 1) ((afterBreak? r).getD r)
    | '"' :: r => takeBasic? (r.length + 1) r
    | '\'' :: r => takeLiteral? r
    | _ => none
  return (String.ofList text, rest)

/-! ## Keys -/

/-- The greatest number of parts of a dotted key, and of levels of arrays and tables in braces. -/
def maxDepth : Nat := 79

/-- One part of a key. -/
def takeSimpleKey? (cs : List Char) : Option (String × List Char) :=
  match cs with
  | '"' :: r => (takeBasic? (r.length + 1) r).map fun (k, rest) => (String.ofList k, rest)
  | '\'' :: r => (takeLiteral? r).map fun (k, rest) => (String.ofList k, rest)
  | _ =>
      let bare := cs.takeWhile isKeyChar
      if bare.isEmpty then none else some (String.ofList bare, cs.dropWhile isKeyChar)

/-- The parts of a dotted key, with blanks around each; `fuel` bounds their number. -/
def takeKeyParts? : Nat → List Char → Option (List String × List Char)
  | 0, _ => none
  | fuel + 1, cs => do
      let (part, rest) ← takeSimpleKey? (skipBlanks cs)
      match skipBlanks rest with
      | '.' :: r =>
          let (parts, rest) ← takeKeyParts? fuel r
          return (part :: parts, rest)
      | r => return ([part], r)

/-- A dotted key, as its last part and those before it. -/
def takeKey? (cs : List Char) : Option ((List String × String) × List Char) := do
  let (parts, rest) ← takeKeyParts? maxDepth cs
  let last ← parts.getLast?
  return ((parts.dropLast, last), rest)

/-! ## Numbers -/

/-- Digits of one kind, at least one, with single underscores between them. -/
def takeRun? (isDigit : Char → Bool) : List Char → Option (List Char × List Char)
  | [] => none
  | c :: cs =>
      if !isDigit c then none
      else match cs with
        | [] => some ([c], [])
        | d :: r =>
            if d = '_' then (takeRun? isDigit r).map fun (ds, rest) => (c :: ds, rest)
            else if isDigit d then
              (takeRun? isDigit (d :: r)).map fun (ds, rest) => (c :: ds, rest)
            else some ([c], d :: r)

/-- The digit is one of a base up to sixteen. -/
def isDigitOf (base : Nat) (c : Char) : Bool := (Text.hexValue? c).any (· < base)

/-- An integer in a base other than ten, behind its mark. -/
def takeBased? (base : Nat) (cs : List Char) : Option (Item × List Char) := do
  let (ds, rest) ← takeRun? (isDigitOf base) cs
  let n := ds.foldl (fun n c => n * base + (Text.hexValue? c).getD 0) 0
  return (.integer (← word? n), rest)

/-- The end of a float: an exponent, if there is one, as its value. -/
def takeExponent? (cs : List Char) : Option (Option Int × List Char) :=
  match cs with
  | c :: r =>
      if c = 'e' ∨ c = 'E' then do
        let (negative, r) := takeSign r
        let (ds, rest) ← takeRun? Char.isDigit r
        let n : Int := digitsValue ds
        return (some (if negative then -n else n), rest)
      else some (none, cs)
  | [] => some (none, [])

/-- A number in base ten. Positive numbers beyond the largest double are refused. -/
def takeDecimal? (cs : List Char) : Option (Item × List Char) := do
  let (negative, body) := takeSign cs
  match body with
  | 'i' :: 'n' :: 'f' :: rest => return (.float, rest)
  | 'n' :: 'a' :: 'n' :: rest => return (.float, rest)
  | _ =>
      let (whole, rest) ← match body with
        | '0' :: r => some (['0'], r)
        | _ => takeRun? Char.isDigit body
      let (fraction, rest) ← match rest with
        | '.' :: r => takeRun? Char.isDigit r
        | r => some ([], r)
      let (exponent, rest) ← takeExponent? rest
      if fraction.isEmpty && exponent.isNone then
        let n : Int := digitsValue whole
        return (.integer (← word? (if negative then -n else n)), rest)
      else
        let x := Binary64.ofScientific negative (digitsValue (whole ++ fraction))
          (exponent.getD 0 - fraction.length)
        if x = .infinite false then none else return (.float, rest)

/-- A number. -/
def takeNumber? (cs : List Char) : Option (Item × List Char) :=
  match cs with
  | '0' :: 'x' :: r => takeBased? 16 r
  | '0' :: 'o' :: r => takeBased? 8 r
  | '0' :: 'b' :: r => takeBased? 2 r
  | _ => takeDecimal? cs

/-! ## Moments -/

/-- What follows so many digits and a mark, and the number that they write. -/
def takeMarked? (width : Nat) (mark : Char) (cs : List Char) : Option (Nat × List Char) :=
  match takeExact? width cs with
  | some (n, c :: rest) => if c = mark then some (n, rest) else none
  | _ => none

/-- What follows a date, behind its year. -/
def afterDate? (year : Nat) (cs : List Char) : Option (List Char) := do
  let (month, cs) ← takeMarked? 2 '-' cs
  let (day, cs) ← takeExact? 2 cs
  if 1 ≤ day ∧ day ≤ Time.daysInMonth year month then some cs else none

/-- What follows a time of day, behind its hour. -/
def afterTime? (hour : Nat) (cs : List Char) : Option (List Char) := do
  let (minute, cs) ← takeMarked? 2 ':' cs
  let (second, cs) ← takeExact? 2 cs
  if hour < 24 ∧ minute < 60 ∧ second ≤ 60 then
    match cs with
    | '.' :: r =>
        let (ds, rest) := takeDigits r
        if ds.isEmpty then none else some rest
    | r => some r
  else none

/-- What follows an offset, if there is one. -/
def afterOffset? (cs : List Char) : Option (List Char) :=
  match cs with
  | [] => some []
  | c :: r =>
      if c = 'Z' ∨ c = 'z' then some r
      else if c = '+' ∨ c = '-' then do
        let (hour, r) ← takeMarked? 2 ':' r
        let (minute, r) ← takeExact? 2 r
        if hour < 24 ∧ minute < 60 then some r else none
      else some cs

/-- What follows a time of day and an offset after a date, if there are any. -/
def afterDelimited? (cs : List Char) : Option (List Char) :=
  match cs with
  | [] => some []
  | c :: r =>
      if c = 'T' ∨ c = 't' ∨ c = ' ' then
        match takeMarked? 2 ':' r with
        | some (hour, r) => (afterTime? hour r).bind afterOffset?
        | none => some cs
      else some cs

/-- A date, a time, both, or a number. -/
def takeNumberOrMoment? (cs : List Char) : Option (Item × List Char) :=
  match takeMarked? 4 '-' cs with
  | some (year, r) => ((afterDate? year r).bind afterDelimited?).map fun rest => (.moment, rest)
  | none =>
      match takeMarked? 2 ':' cs with
      | some (hour, r) => (afterTime? hour r).map fun rest => (.moment, rest)
      | none => takeNumber? cs

end Criteria.Toml
