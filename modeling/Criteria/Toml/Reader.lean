import Criteria.Toml.Token

set_option autoImplicit false

/-! # Reading TOML

Values, lines and whole texts in TOML 1.0. A text is read line by line into statements, of which the
document is made. The recursion on values is bounded by a fuel; the length of the text is enough. -/

namespace Criteria.Toml

/-! ## Values -/

mutual

/-- A value, under so many levels of arrays and tables in braces as `room` says. -/
def takeValue? : Nat → Nat → List Char → Option (Item × List Char)
  | 0, _, _ => none
  | fuel + 1, room, cs =>
      match cs with
      | [] => none
      | c :: r =>
          if c = '"' ∨ c = '\'' then (takeString? cs).map fun (s, rest) => (.text s, rest)
          else if c = '[' then
            if room = 0 then none
            else (takeItems? fuel (room - 1) r).map fun (xs, rest) => (.array xs, rest)
          else if c = '\x7b' then
            if room = 0 then none
            else do
              let (pairs, rest) ← takePairs? fuel (room - 1) true r
              return (.table .braces (← insertAll? [] pairs), rest)
          else if c = 't' then
            match r with
            | 'r' :: 'u' :: 'e' :: rest => some (.bool true, rest)
            | _ => none
          else if c = 'f' then
            match r with
            | 'a' :: 'l' :: 's' :: 'e' :: rest => some (.bool false, rest)
            | _ => none
          else takeNumberOrMoment? cs

/-- The items of an array, the first of all or those behind a comma, up to the closing bracket. -/
def takeItems? : Nat → Nat → List Char → Option (List Item × List Char)
  | 0, _, _ => none
  | fuel + 1, room, cs => do
      match ← skipTrivia false cs with
      | ']' :: rest => some ([], rest)
      | cs =>
          let (x, rest) ← takeValue? fuel room cs
          match ← skipTrivia false rest with
          | ']' :: rest => some ([x], rest)
          | ',' :: rest =>
              let (xs, rest) ← takeItems? fuel room rest
              return (x :: xs, rest)
          | _ => none

/-- The pairs of a table in braces, the first of all or those behind a comma, up to the closing
brace. -/
def takePairs? : Nat → Nat → Bool → List Char → Option (List Pair × List Char)
  | 0, _, _, _ => none
  | fuel + 1, room, first, cs => do
      match skipBlanks cs with
      | '\x7d' :: rest => if first then some ([], rest) else none
      | cs =>
          let ((path, key), rest) ← takeKey? cs
          match rest with
          | '=' :: rest =>
              let (x, rest) ← takeValue? fuel room (skipBlanks rest)
              match skipBlanks rest with
              | '\x7d' :: rest => some ([⟨path, key, x⟩], rest)
              | ',' :: rest =>
                  let (pairs, rest) ← takePairs? fuel room false rest
                  return (⟨path, key, x⟩ :: pairs, rest)
              | _ => none
          | _ => none

end

/-! ## Lines -/

/-- A header, behind its first bracket. -/
def takeHeader? (cs : List Char) : Option (Statement × List Char) :=
  match cs with
  | '[' :: r => do
      let ((path, key), rest) ← takeKey? r
      match rest with
      | ']' :: ']' :: rest => some (.header true path key, rest)
      | _ => none
  | _ => do
      let ((path, key), rest) ← takeKey? cs
      match rest with
      | ']' :: rest => some (.header false path key, rest)
      | _ => none

/-- A key, an equals sign and a value. -/
def takePair? (cs : List Char) : Option (Statement × List Char) := do
  let ((path, key), rest) ← takeKey? cs
  match rest with
  | '=' :: rest =>
      let (x, rest) ← takeValue? (2 * rest.length + 2) maxDepth (skipBlanks rest)
      return (.pair ⟨path, key, x⟩, rest)
  | _ => none

/-- The statements of a text; `fuel` bounds the number of its lines. -/
def statements? : Nat → List Char → Option (List Statement)
  | 0, _ => none
  | fuel + 1, cs =>
      match skipBlanks cs with
      | [] => some []
      | c :: r =>
          if c = '\n' ∨ c = '\r' ∨ c = '#' then do statements? fuel (← endLine? (c :: r))
          else do
            let (s, rest) ← if c = '[' then takeHeader? r else takePair? (c :: r)
            let ss ← statements? fuel (← endLine? rest)
            return s :: ss

/-- The document of a text, which may start with a byte order mark. -/
def parse? (cs : List Char) : Option Entries :=
  let text := match cs with
    | '\uFEFF' :: r => r
    | r => r
  (statements? (text.length + 1) text).bind ofStatements?

end Criteria.Toml
