import Criteria.Payload.Scalar

set_option autoImplicit false

/-! # Values that are passed over

Two kinds of values leave no trace in the criteria. The value of a key that means nothing is
*skipped*: only its form is checked. A list or an object in place of a literal is *checked* like any
value that is wanted, with the limit on nesting, before it is found not to fit. The two differ in
what they say of a comma before a closing bracket and of a text that ends in an object.

The functions recurse on a fuel that bounds the number of tokens; the length of the text is
enough. -/

namespace Criteria.Payload

/-- How a value is passed over. -/
inductive Passing where
  /-- With all checks, and so many levels of nesting that its lists and objects must not reach. -/
  | checked (room : Nat)
  /-- By its form alone. -/
  | skipped
deriving DecidableEq

namespace Passing

/-- The string that starts behind a quote. -/
def string (p : Passing) (cs : List Char) : Except Stop (List Char) :=
  match p with
  | .checked _ => (readChars cs).map (·.2)
  | .skipped => skipChars cs

/-- The number that starts here, behind an optional minus sign. -/
def number (p : Passing) (negative : Bool) (cs : List Char) : Except Stop (List Char) :=
  match p with
  | .checked _ => (readNumber negative cs).map (·.2)
  | .skipped => skipNumber cs

/-- One level deeper, at the bracket with which the text starts. -/
def deeper (p : Passing) (cs : List Char) : Except Stop Passing :=
  match p with
  | .checked room => if room ≤ 1 then stopAt .tooDeep cs else .ok (.checked (room - 1))
  | .skipped => .ok .skipped

/-- A list ends right after a comma. -/
def afterListComma (p : Passing) (cs : List Char) : Except Stop Unit :=
  match p, cs with
  | .checked _, ']' :: _ => stopAt .trailingComma cs
  | .checked _, [] => stopAfter .endInValue []
  | _, _ => .ok ()

/-- An object ends right after a comma. -/
def afterObjectComma (p : Passing) (cs : List Char) : Except Stop Unit :=
  match p, cs with
  | .checked _, '\x7d' :: _ => stopAt .trailingComma cs
  | .checked _, [] => stopAfter .endInValue []
  | _, _ => .ok ()

mutual

/-- What follows a value, with blanks before it. -/
def value (p : Passing) : Nat → List Char → Except Stop (List Char)
  | 0, cs => stopAfter .endInValue cs
  | fuel + 1, cs =>
      match skipSpace cs with
      | [] => stopAfter .endInValue []
      | c :: rest =>
          if c = 'n' then readWord "ull".toList rest
          else if c = 't' then readWord "rue".toList rest
          else if c = 'f' then readWord "alse".toList rest
          else if c = '-' then p.number true rest
          else if c.isDigit then p.number false (c :: rest)
          else if c = '"' then p.string rest
          else if c = '[' then do
            let q ← p.deeper (c :: rest)
            items q fuel true rest
          else if c = '\x7b' then do
            let q ← p.deeper (c :: rest)
            members q fuel true rest
          else stopAt .expectedValue (c :: rest)

/-- What follows the list whose items, the first of all or further ones, come next. -/
def items (p : Passing) : Nat → Bool → List Char → Except Stop (List Char)
  | 0, _, cs => stopAfter .endInList cs
  | fuel + 1, first, cs =>
      match skipSpace cs with
      | [] => stopAfter .endInList []
      | c :: rest =>
          if c = ']' then .ok rest
          else if first then do items p fuel false (← value p fuel (c :: rest))
          else if c = ',' then do
            p.afterListComma (skipSpace rest)
            items p fuel false (← value p fuel rest)
          else stopAt .expectedListCommaOrEnd (c :: rest)

/-- What follows the object whose members, the first of all or further ones, come next. -/
def members (p : Passing) : Nat → Bool → List Char → Except Stop (List Char)
  | 0, _, cs => stopAfter .endInObject cs
  | fuel + 1, first, cs =>
      match skipSpace cs with
      | [] => stopAfter .endInObject []
      | c :: rest =>
          if c = '\x7d' then .ok rest
          else if first then do members p fuel false (← member p fuel (c :: rest))
          else if c = ',' then do
            p.afterObjectComma (skipSpace rest)
            members p fuel false (← member p fuel rest)
          else stopAt .expectedObjectCommaOrEnd (c :: rest)

/-- What follows a member: a key, a colon and a value. -/
def member (p : Passing) : Nat → List Char → Except Stop (List Char)
  | 0, cs => stopAfter .endInObject cs
  | fuel + 1, cs =>
      match skipSpace cs with
      | [] => stopAfter .endInObject []
      | c :: rest =>
          if c = '"' then do
            match skipSpace (← p.string rest) with
            | [] => stopAfter .endInObject []
            | d :: rest =>
                if d = ':' then value p fuel rest else stopAt .expectedColon (d :: rest)
          else stopAt .keyNotText (c :: rest)

end

end Passing

/-- What follows a value that only its form is checked of. -/
def skipValue (cs : List Char) : Except Stop (List Char) :=
  Passing.skipped.value (2 * cs.length + 2) cs

/-- What follows a value that is checked to `room` levels of nesting. -/
def checkValue (room : Nat) (cs : List Char) : Except Stop (List Char) :=
  (Passing.checked room).value (2 * cs.length + 2) cs

end Criteria.Payload
