import Criteria.Time.Timestamp
import Criteria.Text.Blank

set_option autoImplicit false

/-! # Reading dates and times

Three forms are read. A plain date is `year-month-day`, where blanks may stand before each number
and the numbers may be short. A plain date and time has no offset and is taken as UTC. The form of
RFC 3339 has all its digits and an offset; its date is the one that is written, its moment the one
that the offset leads to. -/

namespace Criteria.Time

open Criteria.Number Criteria.Text

/-! ## Parts -/

/-- What follows the given character at the start. -/
def after? (mark : Char) : List Char → Option (List Char)
  | c :: cs => if c = mark then some cs else none
  | [] => none

/-- At least one digit at the start, as a number, and what follows. -/
def takeAll? (cs : List Char) : Option (Nat × List Char) := takeUpTo? cs.length cs

/-- A year after optional blanks: a sign and any number of digits, or one to four digits. -/
def takeYear? (cs : List Char) : Option (Int × List Char) :=
  match trimStart cs with
  | '-' :: r => (takeAll? r).map fun (n, rest) => (-(n : Int), rest)
  | '+' :: r => (takeAll? r).map fun (n, rest) => ((n : Int), rest)
  | r => (takeUpTo? 4 r).map fun (n, rest) => ((n : Int), rest)

/-- A number of one or two digits after optional blanks. -/
def takeShort? (cs : List Char) : Option (Nat × List Char) := takeUpTo? 2 (trimStart cs)

/-- The fraction of a second at the start as nanoseconds: a point and digits, of which those after
the ninth do not count; nothing without a point. -/
def takeFraction? : List Char → Option (Nat × List Char)
  | '.' :: cs =>
      let (ds, rest) := takeDigits cs
      if ds.isEmpty then none
      else some (digitsValue (ds.take 9) * Nat.pow 10 (9 - ds.length), rest)
  | cs => some (0, cs)

/-! ## Plain forms -/

/-- A plain date at the start. -/
def takeDate? (cs : List Char) : Option (Date × List Char) := do
  let (year, cs) ← takeYear? cs
  let (month, cs) ← takeShort? (← after? '-' cs)
  let (day, cs) ← takeShort? (← after? '-' cs)
  return (← Date.ofCivil? year month day, cs)

/-- A plain time of day at the start, on the given date. -/
def takeClock? (date : Date) (cs : List Char) : Option (Timestamp × List Char) := do
  let (hour, cs) ← takeShort? cs
  let (minute, cs) ← takeShort? (← after? ':' cs)
  let (second, cs) ← takeShort? (← after? ':' cs)
  let (nano, cs) ← takeFraction? cs
  return (← Timestamp.ofClock? date hour minute second nano, cs)

/-- A value that was read to the end of the text. -/
def whole? {α : Type} : α × List Char → Option α
  | (a, []) => some a
  | _ => none

/-- A plain date. -/
def readDate? (cs : List Char) : Option Date := (takeDate? cs).bind whole?

/-- A plain date and time, separated by `T`. -/
def readMarked? (cs : List Char) : Option Timestamp := do
  let (date, cs) ← takeDate? cs
  whole? (← takeClock? date (← after? 'T' cs))

/-- A plain date and time, separated by any number of blanks. -/
def readSpaced? (cs : List Char) : Option Timestamp := do
  let (date, cs) ← takeDate? cs
  whole? (← takeClock? date (trimStart cs))

/-! ## The form of RFC 3339 -/

/-- Hours and minutes of an offset, less than a day, in seconds. -/
def readDistance? (cs : List Char) : Option Nat := do
  let (hours, cs) ← takeExact? 2 cs
  let (minutes, cs) ← takeExact? 2 (← after? ':' cs)
  if cs.isEmpty ∧ hours < 24 ∧ minutes < 60 then some (hours * 3600 + minutes * 60) else none

/-- Whether a character is the sign of an offset to the west; the minus may be the sign U+2212 as
well. -/
def isWest? (c : Char) : Option Bool :=
  if c = '+' then some false else if c = '-' ∨ c = '\u2212' then some true else none

/-- An offset from UTC, in seconds: `Z`, or a sign, hours and minutes. -/
def readOffset? : List Char → Option Int
  | [] => none
  | c :: cs =>
      if c = 'Z' ∨ c = 'z' then if cs.isEmpty then some 0 else none
      else (isWest? c).bind fun west =>
        (readDistance? cs).map fun seconds : Nat =>
          if west then -(seconds : Int) else (seconds : Int)

/-- A moment as a clock shows it, and the offset of that clock from UTC in seconds. -/
structure Offsetted where
  clock : Timestamp
  offset : Int

/-- A date with all its digits at the start. -/
def takeFullDate? (cs : List Char) : Option (Date × List Char) := do
  let (year, cs) ← takeExact? 4 cs
  let (month, cs) ← takeExact? 2 (← after? '-' cs)
  let (day, cs) ← takeExact? 2 (← after? '-' cs)
  return (← Date.ofCivil? year month day, cs)

/-- A time of day with all its digits at the start, on the given date. -/
def takeFullClock? (date : Date) (cs : List Char) : Option (Timestamp × List Char) := do
  let (hour, cs) ← takeExact? 2 cs
  let (minute, cs) ← takeExact? 2 (← after? ':' cs)
  let (second, cs) ← takeExact? 2 (← after? ':' cs)
  let (nano, cs) ← takeFraction? cs
  return (← Timestamp.ofClock? date hour minute second nano, cs)

/-- What follows the mark between a date and a time of day. -/
def afterMark? (cs : List Char) : Option (List Char) :=
  (after? 'T' cs).or ((after? 't' cs).or (after? ' ' cs))

/-- A date, a time and an offset in the form of RFC 3339. -/
def readOffsetted? (cs : List Char) : Option Offsetted := do
  let (date, cs) ← takeFullDate? cs
  let (clock, cs) ← takeFullClock? date (← afterMark? cs)
  return ⟨clock, ← readOffset? cs⟩

/-- The moment in UTC. -/
def Offsetted.moment? (o : Offsetted) : Option Timestamp := o.clock.earlier? o.offset

/-- A moment in the form of RFC 3339. -/
def readMoment? (cs : List Char) : Option Timestamp := (readOffsetted? cs).bind Offsetted.moment?

/-- A moment: the form of RFC 3339, a plain date and time, or a plain date for its first moment. -/
def readTimestamp? (cs : List Char) : Option Timestamp :=
  (readMoment? cs).or ((readMarked? cs).or ((readSpaced? cs).or
    ((readDate? cs).map Timestamp.midnight)))

/-- A date: a plain one, or the one written in the form of RFC 3339. -/
def readDay? (cs : List Char) : Option Date :=
  (readDate? cs).or do
    let o ← readOffsetted? cs
    let _ ← o.moment?
    return o.clock.date

end Criteria.Time
