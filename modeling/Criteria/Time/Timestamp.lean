import Criteria.Time.Date

set_option autoImplicit false

/-! # Points in time

A timestamp is a day and a time of that day in UTC, to the nanosecond. A leap second is the second
before it with a thousand million nanoseconds or more, so it comes after every other moment of that
second and before the next. -/

namespace Criteria.Time

/-- The number of nanoseconds of a second. -/
def nanosPerSecond : Nat := 1000000000

/-- The number of seconds of a day. -/
def secondsPerDay : Nat := 86400

/-- A moment of a day. -/
structure Timestamp where
  date : Date
  second : Nat
  nano : Nat
  second_lt : second < 86400
  nano_lt : nano < 2000000000
deriving DecidableEq

namespace Timestamp

instance : Inhabited Timestamp := ⟨⟨default, 0, 0, by decide, by decide⟩⟩

/-- The moment with these parts, if they are in range. -/
def ofParts? (date : Date) (second nano : Nat) : Option Timestamp :=
  if h : second < 86400 ∧ nano < 2000000000 then some ⟨date, second, nano, h.1, h.2⟩ else none

/-- The first moment of a day. -/
def midnight (date : Date) : Timestamp := ⟨date, 0, 0, by decide, by decide⟩

/-- The moment that a clock shows on a day; second 60 is the leap second of its minute. -/
def ofClock? (date : Date) (hour minute second nano : Nat) : Option Timestamp :=
  if hour < 24 ∧ minute < 60 ∧ second ≤ 60 then
    ofParts? date (hour * 3600 + minute * 60 + min second 59)
      (if second = 60 then nano + nanosPerSecond else nano)
  else none

/-- Earlier moments come first. -/
def compare (a b : Timestamp) : Ordering :=
  (a.date.compare b.date).then
    ((Ord.compare a.second b.second).then (Ord.compare a.nano b.nano))

/-- The moment `seconds` earlier, for less than a day in either direction. -/
def earlier? (t : Timestamp) (seconds : Int) : Option Timestamp := do
  let second : Int := t.second - seconds
  if second < 0 then ofParts? (← t.date.previous?) (second + secondsPerDay).toNat t.nano
  else if secondsPerDay ≤ second then
    ofParts? (← t.date.next?) (second - secondsPerDay).toNat t.nano
  else ofParts? t.date second.toNat t.nano

/-! ## Writing -/

/-- The fraction of a second in the fewest groups of three digits that hold it. -/
def fractionChars (nano : Nat) : List Char :=
  if nano = 0 then []
  else if nano % 1000000 = 0 then '.' :: Number.padded 3 (nano / 1000000)
  else if nano % 1000 = 0 then '.' :: Number.padded 6 (nano / 1000)
  else '.' :: Number.padded 9 nano

/-- The moment in the form of RFC 3339, with the offset of UTC; a leap second is second 60. -/
def chars (t : Timestamp) : List Char :=
  let leap := t.nano / nanosPerSecond
  t.date.chars ++ 'T' :: Number.padded 2 (t.second / 3600)
    ++ ':' :: Number.padded 2 (t.second / 60 % 60)
    ++ ':' :: Number.padded 2 (t.second % 60 + leap)
    ++ fractionChars (t.nano % nanosPerSecond) ++ "+00:00".toList

/-- The text of a timestamp. -/
def text (t : Timestamp) : String := String.ofList t.chars

end Timestamp

end Criteria.Time
