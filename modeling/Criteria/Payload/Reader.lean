import Criteria.Literal
import Criteria.Payload.Skip

set_option autoImplicit false

/-! # Reading criteria

A payload is a JSON list of criteria. A criterion is an object, whose keys may come in any order and
may be spelled in several ways and whose other keys are skipped, or a list of its three parts in
order. The text of a part that has the wrong type is named in the fault.

A fault that no single token shows (a missing or repeated part, a list of the wrong length, a value
that is no literal) is placed after the bracket that closes the criterion, where that comes next. -/

namespace Criteria.Payload

open Number

/-- The levels of nesting that a payload must not reach. -/
def maxNesting : Nat := 128

/-! ## Types of values -/

/-- The type of the value that comes next and the text after it; a list or an object is named and
not read. -/
def readFound (cs : List Char) : Except Stop (Found × List Char) := do
  match cs with
  | [] => stopAfter .endInValue []
  | c :: rest =>
      if c = 'n' then return (.null, ← readWord "ull".toList rest)
      else if c = 't' then return (.bool true, ← readWord "rue".toList rest)
      else if c = 'f' then return (.bool false, ← readWord "alse".toList rest)
      else if c = '-' then return named (← readNumber true rest)
      else if c.isDigit then return named (← readNumber false cs)
      else if c = '"' then
        let (text, rest) ← readChars rest
        return (.text (String.ofList text), rest)
      else if c = '[' then return (.sequence, cs)
      else if c = '\x7b' then return (.map, cs)
      else stopAt .expectedValue cs
where
  /-- A number as what was found. -/
  named (n : Numeric × List Char) : Found × List Char :=
    match n.1 with
    | .int i => (.int i, n.2)
    | .float x => (.float x, n.2)

/-- Refuses the value that comes next, in favour of what was expected. -/
def refuse {α : Type} (expected : Expected) (cs : List Char) : Except Stop α := do
  let (found, rest) ← readFound cs
  stopAfter (.invalidType found expected) rest

/-- A string, with blanks before it. -/
def readText (cs : List Char) : Except Stop (String × List Char) := do
  match skipSpace cs with
  | [] => stopAfter .endInValue []
  | c :: rest =>
      if c = '"' then
        let (text, rest) ← readChars rest
        return (String.ofList text, rest)
      else refuse .text (c :: rest)

/-! ## Literals -/

/-- A number as a literal: a word if it is an integer in range, and else the nearest double. -/
def literalOfNumber : Numeric → Literal
  | .float x => .float x
  | .int i => match word? i with
      | some w => .int w
      | none => .float (Binary64.ofInt i)

/-- A literal, with blanks before it; `none` if a list or an object stands there. -/
def readLiteral (room : Nat) (cs : List Char) : Except Stop (Option Literal × List Char) := do
  match skipSpace cs with
  | [] => stopAfter .endInValue []
  | c :: rest =>
      if c = 'n' then return (some .null, ← readWord "ull".toList rest)
      else if c = 't' then return (some (.bool true), ← readWord "rue".toList rest)
      else if c = 'f' then return (some (.bool false), ← readWord "alse".toList rest)
      else if c = '-' then
        let (n, rest) ← readNumber true rest
        return (some (literalOfNumber n), rest)
      else if c.isDigit then
        let (n, rest) ← readNumber false (c :: rest)
        return (some (literalOfNumber n), rest)
      else if c = '"' then
        let (text, rest) ← readChars rest
        return (some (.text (String.ofList text)), rest)
      else if c = '[' ∨ c = '\x7b' then return (none, ← checkValue room (c :: rest))
      else stopAt .expectedValue (c :: rest)

/-! ## Criteria as objects -/

/-- The parts of a criterion that have been read. -/
structure Parts where
  property : Option String := none
  operator : Option String := none
  value : Option Literal := none

/-- The part has been read. -/
def Parts.has (parts : Parts) : Member → Bool
  | .property => parts.property.isSome
  | .operator => parts.operator.isSome
  | .value => parts.value.isSome

/-- The criterion of all parts, or the first that is missing. -/
def Parts.criterion (parts : Parts) : Except Member Criterion :=
  match parts.property, parts.operator, parts.value with
  | some p, some o, some v => .ok ⟨p, o, v⟩
  | none, _, _ => .error .property
  | _, none, _ => .error .operator
  | _, _, none => .error .value

/-- The text behind the brace that closes an object, if it comes next. -/
def closeObject (cs : List Char) : List Char :=
  match skipSpace cs with
  | '\x7d' :: rest => rest
  | rest => rest

/-- The text behind the bracket that closes a list, or behind a comma, if one comes next. -/
def closeList (cs : List Char) : List Char :=
  match skipSpace cs with
  | ']' :: rest => rest
  | ',' :: rest => skipSpace rest
  | rest => rest

/-- The text behind the colon after a key. -/
def afterColon (cs : List Char) : Except Stop (List Char) :=
  match skipSpace cs with
  | [] => stopAfter .endInObject []
  | c :: rest => if c = ':' then .ok rest else stopAt .expectedColon (c :: rest)

/-- The value of a key, behind the key, added to the parts. -/
def readMember (room : Nat) (parts : Parts) (key : String) (cs : List Char) :
    Except Stop (Parts × List Char) := do
  match Member.ofKey? key with
  | none => return (parts, ← skipValue (← afterColon cs))
  | some m =>
      if parts.has m then stopAfter (.duplicateMember m) (closeObject cs)
      else
        let cs ← afterColon cs
        match m with
        | .property =>
            let (text, rest) ← readText cs
            return ({ parts with property := some text }, rest)
        | .operator =>
            let (text, rest) ← readText cs
            return ({ parts with operator := some text }, rest)
        | .value =>
            match ← readLiteral room cs with
            | (some l, rest) => return ({ parts with value := some l }, rest)
            | (none, rest) => stopAfter .unmatchedValue (closeObject rest)

/-- A key and its value, with blanks before them, added to the parts. -/
def readEntry (room : Nat) (parts : Parts) (cs : List Char) :
    Except Stop (Parts × List Char) := do
  match skipSpace cs with
  | [] => stopAfter .endInValue []
  | c :: rest =>
      if c = '"' then
        let (key, rest) ← readChars rest
        readMember room parts (String.ofList key) rest
      else if c = '\x7d' then stopAt .trailingComma (c :: rest)
      else stopAt .keyNotText (c :: rest)

/-- The rest of an object after its parts so far: nothing, or a comma and further entries. -/
def readEntries (room : Nat) : Nat → Parts → List Char → Except Stop (Criterion × List Char)
  | 0, _, cs => stopAfter .endInObject cs
  | fuel + 1, parts, cs =>
      match skipSpace cs with
      | [] => stopAfter .endInObject []
      | c :: rest =>
          if c = '\x7d' then
            match parts.criterion with
            | .ok criterion => .ok (criterion, rest)
            | .error m => stopAfter (.missingMember m) rest
          else if c = ',' then do
            let (parts, rest) ← readEntry room parts rest
            readEntries room fuel parts rest
          else stopAt .expectedObjectCommaOrEnd (c :: rest)

/-- A criterion as an object, behind its brace. -/
def readObject (room : Nat) (cs : List Char) : Except Stop (Criterion × List Char) :=
  match skipSpace cs with
  | [] => stopAfter .endInObject []
  | c :: rest =>
      if c = '\x7d' then stopAfter (.missingMember .property) rest
      else if c = '"' then do
        let (parts, rest) ← readEntry room {} (c :: rest)
        readEntries room (rest.length + 1) parts rest
      else stopAt .keyNotText (c :: rest)

/-! ## Criteria as lists -/

/-- The text of the item that comes next in a list which has `count` of them before it. -/
def nextItem (count : Nat) (cs : List Char) : Except Stop (List Char) :=
  match skipSpace cs with
  | [] => stopAfter .endInList []
  | c :: rest =>
      if c = ']' then stopAfter (.invalidLength count) rest
      else if count = 0 then .ok (c :: rest)
      else if c = ',' then
        match skipSpace rest with
        | [] => stopAfter .endInValue []
        | d :: after => if d = ']' then stopAt .trailingComma (d :: after) else .ok (d :: after)
      else stopAt .expectedListCommaOrEnd (c :: rest)

/-- The end of a list that has all its items. -/
def endList (cs : List Char) : Except Stop (List Char) :=
  match skipSpace cs with
  | [] => stopAfter .endInList []
  | c :: rest =>
      if c = ']' then .ok rest
      else if c = ',' then
        match skipSpace rest with
        | ']' :: after => stopAt .trailingComma (']' :: after)
        | after => stopAt .trailingCharacters after
      else stopAt .trailingCharacters (c :: rest)

/-- A criterion as a list, behind its bracket. -/
def readTuple (room : Nat) (cs : List Char) : Except Stop (Criterion × List Char) := do
  let (property, cs) ← readText (← nextItem 0 cs)
  let (operator, cs) ← readText (← nextItem 1 cs)
  match ← readLiteral room (← nextItem 2 cs) with
  | (none, rest) => stopAfter .unmatchedValue (closeList rest)
  | (some value, rest) => return (⟨property, operator, value⟩, ← endList rest)

/-! ## The whole payload -/

/-- A criterion, with blanks before it, inside the list of the payload. -/
def readCriterion (room : Nat) (cs : List Char) : Except Stop (Criterion × List Char) :=
  match skipSpace cs with
  | [] => stopAfter .endInValue []
  | c :: rest =>
      if c = '\x7b' then
        if room ≤ 1 then stopAt .tooDeep (c :: rest) else readObject (room - 1) rest
      else if c = '[' then
        if room ≤ 1 then stopAt .tooDeep (c :: rest) else readTuple (room - 1) rest
      else refuse .criterion (c :: rest)

/-- What comes next in the list of criteria. -/
inductive Next where
  /-- The list ends before this text. -/
  | done (rest : List Char)
  /-- A criterion starts this text. -/
  | criterion (cs : List Char)

/-- Where the list goes on, whose first criterion of all or a further one may come next. -/
def nextCriterion (first : Bool) (cs : List Char) : Except Stop Next :=
  match skipSpace cs with
  | [] => stopAfter .endInList []
  | c :: rest =>
      if c = ']' then .ok (.done rest)
      else if first then .ok (.criterion (c :: rest))
      else if c = ',' then
        match skipSpace rest with
        | [] => stopAfter .endInValue []
        | d :: after =>
            if d = ']' then stopAt .trailingComma (d :: after) else .ok (.criterion (d :: after))
      else stopAt .expectedListCommaOrEnd (c :: rest)

/-- The criteria up to the end of the list, where the first of all or further ones come next. -/
def readCriteria (room : Nat) : Nat → Bool → List Char → Except Stop (List Criterion × List Char)
  | 0, _, cs => stopAfter .endInList cs
  | fuel + 1, first, cs => do
      match ← nextCriterion first cs with
      | .done rest => return ([], rest)
      | .criterion cs =>
          let (criterion, rest) ← readCriterion room cs
          let (criteria, rest) ← readCriteria room fuel false rest
          return (criterion :: criteria, rest)

/-- The criteria of a payload, or where its reader stopped. -/
def readPayload (cs : List Char) : Except Stop (List Criterion) := do
  match skipSpace cs with
  | [] => stopAfter .endInValue []
  | c :: rest =>
      if c = '[' then
        let (criteria, rest) ← readCriteria (maxNesting - 1) (rest.length + 1) true rest
        match skipSpace rest with
        | [] => return criteria
        | rest => stopAt .trailingCharacters rest
      else refuse .sequence (c :: rest)

/-- The criteria of a payload, or its first fault. -/
def parse (cs : List Char) : Except Fault (List Criterion) :=
  (readPayload cs).mapError fun stop => stop.fault cs

end Criteria.Payload
