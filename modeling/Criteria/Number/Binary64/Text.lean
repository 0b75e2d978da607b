import Criteria.Number.Binary64.Shortest
import Criteria.Number.Numeral
import Criteria.Text.Ascii

set_option autoImplicit false

/-! # Text forms of a double

`Layout` holds what the written forms decide differently: where positional notation ends, whether a
whole number keeps a fraction, how an exponent is signed, which of two equally near digit strings is
taken. `plain` never uses an exponent; `json` does for very large and very small numbers. Both write
the shortest digits that read back as the same double. `read?` reads decimal notation with any
number of digits, correctly rounded. -/

namespace Criteria.Number.Binary64

/-! ## Writing -/

/-- The decisions of a written form. -/
structure Layout where
  /-- The choice between equally near digit strings. -/
  tie : Tie
  /-- The positions of the decimal point that are written positionally; `none` is all of them. -/
  positional : Option (Int × Int)
  /-- What follows the digits of a whole number. -/
  wholeTail : List Char
  /-- What stands before a positive exponent. -/
  plus : List Char
  /-- The text of the negative or the positive infinity. -/
  infinity : Bool → List Char
  /-- The text of a not-a-number. -/
  notANumber : List Char

/-- Positional notation for every number and nothing after a whole one. -/
def Layout.plain : Layout where
  tie := .up
  positional := none
  wholeTail := []
  plus := []
  infinity negative := (if negative then "-inf" else "inf").toList
  notANumber := "NaN".toList

/-- Positional notation from `0.00001` up to sixteen whole digits, a fraction for every number
written so, a sign on every exponent; JSON has no other numbers and writes `null` instead. -/
def Layout.json : Layout where
  tie := .even
  positional := some (-4, 16)
  wholeTail := ['.', '0']
  plus := ['+']
  infinity _ := "null".toList
  notANumber := "null".toList

/-- The digits with the decimal point at the given place. -/
def Layout.positionally (layout : Layout) (ds : List Char) (point : Int) : List Char :=
  if point ≤ 0 then '0' :: '.' :: List.replicate (-point).toNat '0' ++ ds
  else if ds.length ≤ point.toNat then
    ds ++ List.replicate (point.toNat - ds.length) '0' ++ layout.wholeTail
  else ds.take point.toNat ++ '.' :: ds.drop point.toNat

/-- One digit, the others as a fraction, and the exponent. -/
def Layout.withExponent (layout : Layout) (ds : List Char) (point : Int) : List Char :=
  let fraction := if ds.length ≤ 1 then [] else '.' :: ds.drop 1
  let exponent := point - 1
  ds.take 1 ++ fraction ++ 'e' :: (if exponent < 0 then [] else layout.plus) ++ intDigits exponent

/-- The characters of a double in the layout. -/
def Layout.write (layout : Layout) : Binary64 → List Char
  | .nan => layout.notANumber
  | .infinite negative => layout.infinity negative
  | .finite negative mantissa shift _ =>
      let sign := if negative then ['-'] else []
      if mantissa = 0 then sign ++ '0' :: layout.wholeTail
      else
        let d := shortest layout.tie mantissa shift
        let ds := natDigits d.digits
        let positional := match layout.positional with
          | none => true
          | some (least, most) => decide (least ≤ d.point ∧ d.point ≤ most)
        let magnitude :=
          if positional then layout.positionally ds d.point else layout.withExponent ds d.point
        sign ++ magnitude

/-- The plain text of a double. -/
def plainText (x : Binary64) : String := String.ofList (Layout.plain.write x)

/-- The JSON text of a double. -/
def jsonText (x : Binary64) : String := String.ofList (Layout.json.write x)

/-! ## Reading -/

/-- An optional exponent at the start: `e` or `E`, an optional sign and digits, up to the end. -/
def readExponent? : List Char → Option Int
  | [] => some 0
  | c :: cs => if c = 'e' ∨ c = 'E' then readInt? cs else none

/-- The digits behind a point at the start, none if there is no point, and what follows them. -/
def takeDecimals : List Char → List Char × List Char
  | '.' :: cs => takeDigits cs
  | cs => ([], cs)

/-- Digits with an optional point among or around them, at least one, and an optional exponent. -/
def readNumber? (negative : Bool) (cs : List Char) : Option Binary64 :=
  let (whole, rest) := takeDigits cs
  let (fraction, rest) := takeDecimals rest
  if whole.isEmpty && fraction.isEmpty then none
  else (readExponent? rest).map fun e =>
    ofScientific negative (digitsValue (whole ++ fraction)) (e - fraction.length)

/-- A double: an optional sign, then a number or one of the words `inf`, `infinity` and `nan` in
any case. -/
def read? (cs : List Char) : Option Binary64 :=
  let (negative, body) := takeSign cs
  let word := body.map Char.toLower
  if word = "inf".toList ∨ word = "infinity".toList then some (.infinite negative)
  else if word = "nan".toList then some .nan
  else readNumber? negative body

end Criteria.Number.Binary64
