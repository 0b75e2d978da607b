import Criteria.Payload.Writer
import Criteria.Proofs.Payload.Limits
import Criteria.Proofs.Payload.Objects
import Criteria.Proofs.Uuid

set_option autoImplicit false

/-! # Written criteria

What is written for a list of criteria is a payload in its own right: a list of objects, each with
the three parts under their first names (`exists_document`). So it can be read again, and what it is
read as depends on the constants alone: properties and operators come back as they were, in order,
and a constant as what its text stands for (`Literal.ReadsAs`). -/

namespace Criteria

open Number Payload

namespace Payload

/-! ## Strings -/

/-- Every character is written as a mark that stands for it alone. -/
theorem exists_mark (c : Char) :
    ∃ m : Mark, m.chars = writeChar c ∧ ∀ ms, decoded (m :: ms) = (decoded ms).map (c :: ·) := by
  have hletter : ∀ l e (h : letterEscape? l = some e), writeChar e = ['\\', l] →
      ∃ m : Mark, m.chars = writeChar e ∧
        ∀ ms, decoded (m :: ms) = (decoded ms).map (e :: ·) := by
    intro l e h hwrite
    exact ⟨.letter l e h, hwrite.symm, fun ms => rfl⟩
  by_cases hquote : c = '"'
  · rw [hquote]
    exact hletter '"' '"' rfl rfl
  by_cases hslash : c = '\\'
  · rw [hslash]
    exact hletter '\\' '\\' rfl rfl
  by_cases hback : c = '\x08'
  · rw [hback]
    exact hletter 'b' '\x08' rfl rfl
  by_cases hfeed : c = '\x0c'
  · rw [hfeed]
    exact hletter 'f' '\x0c' rfl rfl
  by_cases hline : c = '\n'
  · rw [hline]
    exact hletter 'n' '\n' rfl rfl
  by_cases hreturn : c = '\r'
  · rw [hreturn]
    exact hletter 'r' '\r' rfl rfl
  by_cases htab : c = '\t'
  · rw [htab]
    exact hletter 't' '\t' rfl rfl
  rw [writeChar, if_neg hquote, if_neg hslash, if_neg hback, if_neg hfeed, if_neg hline,
    if_neg hreturn, if_neg htab]
  by_cases hcontrol : c < ' '
  · -- the number of a control character is not half of another one
    have hnumber : c.toNat < 32 := hcontrol
    have hbound : c.toNat < 16 ^ 4 := Nat.lt_trans hnumber (by decide)
    have hdigits := And.intro (Text.length_hexDigits 4 c.toNat) (Text.hexNumber?_hexDigits hbound)
    refine ⟨.unit _ c.toNat hdigits, by rw [if_pos hcontrol]; rfl, ?_⟩
    intro ms
    rw [decoded.eq_def]
    show (if _ then _ else if _ then _ else _) = _
    rw [if_neg (by omega), if_neg (by omega), Char.ofNat_toNat]
  · exact ⟨.plain c ⟨hquote, hslash, hcontrol⟩, by rw [if_neg hcontrol]; rfl, fun ms => rfl⟩

/-- Every text is written as a string that stands for it. -/
theorem exists_quoted (s : String) :
    ∃ q : Quoted, '"' :: q.tail = writeString s ∧ q.text? = some s := by
  have hmarks : ∀ cs : List Char,
      ∃ ms : List Mark, marksChars ms = cs.flatMap writeChar ∧ decoded ms = some cs := by
    intro cs
    induction cs with
    | nil => exact ⟨[], rfl, rfl⟩
    | cons c cs ih =>
        obtain ⟨ms, hchars, hdecoded⟩ := ih
        obtain ⟨m, hm, hcons⟩ := exists_mark c
        refine ⟨m :: ms, ?_, ?_⟩
        · rw [marksChars, List.flatMap_cons, List.flatMap_cons, hm, ← marksChars, hchars]
        · rw [hcons, hdecoded, Option.map_some]
  obtain ⟨ms, hchars, hdecoded⟩ := hmarks s.toList
  refine ⟨⟨ms⟩, ?_, ?_⟩
  · rw [Quoted.tail, hchars, writeString, List.cons_append]
  · rw [Quoted.text?, hdecoded, Option.map_some, String.ofList_toList]

/-! ## Integers -/

theorem natDigits_of_lt {n : Nat} (h : n < 10) : natDigits n = [Nat.digitChar n] :=
  Nat.toDigits_of_lt_base h

theorem natDigits_of_le {n : Nat} (h : 10 ≤ n) :
    natDigits n = natDigits (n / 10) ++ [Nat.digitChar (n % 10)] :=
  Nat.toDigits_of_base_le (by decide) h

/-- The digits of a number. -/
def Digits.ofNat (n : Nat) : Digits where
  chars := natDigits n
  ne_nil := Nat.toDigits_ne_nil
  isDigit := fun _ hc => Nat.isDigit_of_mem_toDigits (by decide) (by decide) hc

theorem head?_natDigits {n : Nat} (h : n ≠ 0) : (natDigits n).head? ≠ some '0' := by
  induction n using Nat.strong_induction_on with
  | _ n ih =>
      by_cases hsmall : n < 10
      · have hall : ∀ k < 10, k ≠ 0 → some (Nat.digitChar k) ≠ some '0' := by decide
        rw [natDigits_of_lt hsmall]
        exact hall n hsmall h
      · have hhead := ih (n / 10) (by omega) (by omega)
        have hne : natDigits (n / 10) ≠ [] := Nat.toDigits_ne_nil
        rwa [natDigits_of_le (by omega), List.head?_append_of_ne_nil _ hne]

theorem noLeadingZero_natDigits (n : Nat) :
    natDigits n = ['0'] ∨ (natDigits n).head? ≠ some '0' := by
  by_cases h : n = 0
  · rw [h]
    exact Or.inl rfl
  · exact Or.inr (head?_natDigits h)

/-- An integer as it is written. -/
def Numeral.ofInt (i : Int) : Numeral where
  negative := decide (i < 0)
  whole := .ofNat i.natAbs
  noLeadingZero := noLeadingZero_natDigits i.natAbs
  fraction := none
  power := none

theorem Numeral.chars_ofInt (i : Int) : (Numeral.ofInt i).chars = intDigits i := by
  by_cases h : i < 0
  · simp [chars, body, ofInt, intDigits, Digits.ofNat, Digits.fractionChars, Power.chars, h]
  · simp [chars, body, ofInt, intDigits, Digits.ofNat, Digits.fractionChars, Power.chars, h]

theorem Numeral.toInt_ofInt (i : Int) : (Numeral.ofInt i).toInt = i := by
  have hmagnitude : (Numeral.ofInt i).magnitude = i.natAbs := digitsValue_natDigits i.natAbs
  rw [toInt, hmagnitude, signed, ofInt]
  simp only [decide_eq_true_eq]
  split
  · omega
  · omega

/-- The digits of a word are read as a word. -/
theorem Numeral.isWord_ofInt (w : Int64) : (Numeral.ofInt w.toInt).IsWord where
  integer := ⟨rfl, rfl⟩
  fits := by
    have hlow := w.le_toInt
    have hhigh := w.toInt_lt
    rw [Numeral.toInt_ofInt]
    constructor
    · omega
    · omega
  notNegativeZero := by
    rintro ⟨hnegative, hzero⟩
    have hmagnitude : w.toInt.natAbs = 0 := (digitsValue_natDigits _).symm.trans hzero
    have hlow : w.toInt < 0 := of_decide_eq_true hnegative
    omega

end Payload

/-! ## Constants -/

/-- The text of a constant is read as another one, or as the same. -/
def Literal.ReadsAs (l l' : Literal) : Prop := ∃ s : Scalar, s.chars = writeLiteral l ∧ s.Stands l'

/-- Every constant but a double is read as it was. -/
theorem Literal.readsAs_self {l : Literal} (h : ∀ x, l ≠ .float x) : l.ReadsAs l := by
  cases l with
  | null => exact ⟨.null, rfl, .null⟩
  | bool b =>
      cases b with
      | true => exact ⟨.bool true, rfl, .bool true⟩
      | false => exact ⟨.bool false, rfl, .bool false⟩
  | int w =>
      exact ⟨.number (.ofInt w.toInt), Numeral.chars_ofInt w.toInt,
        .word (Numeral.isWord_ofInt w) (Numeral.toInt_ofInt w.toInt).symm⟩
  | float x => exact absurd rfl (h x)
  | text s =>
      obtain ⟨q, hchars, htext⟩ := exists_quoted s
      exact ⟨.text q, hchars, .text htext⟩

/-! ## Criteria -/

/-- A criterion is read with its own property and operator, and with what its constant is read
as. -/
structure Criterion.ReadsAs (c c' : Criterion) : Prop where
  property : c'.property = c.property
  operator : c'.operator = c.operator
  value : c.value.ReadsAs c'.value

theorem Criterion.readsAs_self {c : Criterion} (h : ∀ x, c.value ≠ .float x) : c.ReadsAs c :=
  ⟨rfl, rfl, Literal.readsAs_self h⟩

namespace Payload

/-- What is written for a key and its value is a member. -/
theorem exists_entry (m : Member) (i : Item) :
    ∃ e : Entry, e.chars = writeEntry m i.chars ∧ e.key.name.text? = some m.name ∧
      e.value = i := by
  obtain ⟨q, hchars, htext⟩ := exists_quoted m.name
  refine ⟨⟨⟨.empty, q, .empty, .empty⟩, i, .empty⟩, ?_, htext, rfl⟩
  rw [writeEntry, ← hchars]
  simp [Entry.chars, Key.chars, Gap.empty]

theorem ofKey?_name (m : Member) : Member.ofKey? m.name = some m := by cases m <;> decide

theorem Entry.member?_of_name {e : Entry} {m : Member} (h : e.key.name.text? = some m.name) :
    e.member? = some m := by
  rw [member?, h, Option.bind_some, ofKey?_name]

/-- What is written for a criterion is an object that stands for what it is read as. -/
theorem exists_object {c c' : Criterion} (h : c.ReadsAs c') :
    ∃ o : Object, (Element.object o).chars = writeCriterion c ∧
      (Element.object o).criterion? = some c' := by
  obtain ⟨s, hs, hstands⟩ := h.value
  obtain ⟨p, hp, hproperty⟩ := exists_quoted c.property
  obtain ⟨q, hq, hoperator⟩ := exists_quoted c.operator
  obtain ⟨e₁, he₁, hkey₁, hvalue₁⟩ := exists_entry .property (.scalar (.text p))
  obtain ⟨e₂, he₂, hkey₂, hvalue₂⟩ := exists_entry .operator (.scalar (.text q))
  obtain ⟨e₃, he₃, hkey₃, hvalue₃⟩ := exists_entry .value (.scalar s)
  have hmember₁ := Entry.member?_of_name hkey₁
  have hmember₂ := Entry.member?_of_name hkey₂
  have hmember₃ := Entry.member?_of_name hkey₃
  refine ⟨⟨.empty, [e₁, e₂, e₃]⟩, ?_, ?_⟩
  · have hp' : (Item.scalar (.text p)).chars = writeString c.property := hp
    have hq' : (Item.scalar (.text q)).chars = writeString c.operator := hq
    have hs' : (Item.scalar s).chars = writeLiteral c.value := hs
    rw [writeCriterion, ← hp', ← hq', ← hs', ← he₁, ← he₂, ← he₃]
    simp [Element.chars, Object.tail, commaSeparated, Gap.empty]
  · have hp' : (Item.scalar (.text p)).text? = some c.property := hproperty
    have hq' : (Item.scalar (.text q)).text? = some c.operator := hoperator
    have hsends : (Element.object ⟨.empty, [e₁, e₂, e₃]⟩).Sends c.property c.operator
        (.scalar s) := by
      refine .object ?_ ?_ hp' ?_ hq' ?_
      · simp [keysDenote, hkey₁, hkey₂, hkey₃]
      · simp [sent, hmember₁, hmember₂, hmember₃, hvalue₁]
      · simp [sent, hmember₁, hmember₂, hmember₃, hvalue₂]
      · simp [sent, hmember₁, hmember₂, hmember₃, hvalue₃]
    obtain ⟨property, operator, value⟩ := c'
    obtain rfl : property = c.property := h.property
    obtain rfl : operator = c.operator := h.operator
    rw [hsends.criterion?_eq, Item.literal?_eq_some_iff.2 ⟨s, rfl, hstands⟩, Option.map_some]

theorem flatten_intersperse_comma (xss : List (List Char)) :
    (xss.intersperse [',']).flatten = commaSeparated xss := by
  induction xss with
  | nil => rfl
  | cons xs xss ih =>
      cases xss with
      | nil => simp [commaSeparated]
      | cons ys yss =>
          rw [List.intersperse_cons_cons, List.flatten_cons, List.flatten_cons, ih]
          simp [commaSeparated]

/-- What is written for criteria is a payload that stands for what they are read as. -/
theorem exists_document {cs cs' : List Criterion} (h : List.Forall₂ Criterion.ReadsAs cs cs') :
    ∃ d : Document, d.chars = writeCriteria cs ∧ d.criteria? = some cs' := by
  have hplaces : ∃ ps : List Place, ps.map Place.chars = cs.map writeCriterion ∧
      ps.map (fun p => p.element.criterion?) = cs'.map some := by
    induction h with
    | nil => exact ⟨[], rfl, rfl⟩
    | cons hc _ ih =>
        obtain ⟨ps, hchars, hcriteria⟩ := ih
        obtain ⟨o, ho, hcriterion⟩ := exists_object hc
        refine ⟨⟨.empty, .object o, .empty⟩ :: ps, ?_, ?_⟩
        · simp [Place.chars, Gap.empty, ho, hchars]
        · simp [hcriterion, hcriteria]
  obtain ⟨ps, hchars, hcriteria⟩ := hplaces
  refine ⟨⟨.empty, ps⟩, ?_, Document.criteria?_eq_some_iff.2 hcriteria⟩
  rw [Document.chars, hchars, writeCriteria, flatten_intersperse_comma]
  simp [Gap.empty]

end Payload

/-! ## Reading again -/

/-- A payload that stands for criteria is decoded to them exactly if it is within the limits. -/
theorem Limits.outcome_decode_eq_ok_iff {limits : Limits} {payload : String} {d : Document}
    {cs : List Criterion} (htext : Text.trim payload.toList = d.chars)
    (hcs : d.criteria? = some cs) :
    (limits.decode (some payload)).outcome = .ok cs ↔
      byteLength d.chars ≤ limits.maxPayloadBytes ∧ cs.length ≤ limits.maxCriteria := by
  have hparse := d.parse_chars.1 cs hcs
  have hne : d.chars ≠ [] := by simp [Document.chars]
  rw [decode_ok_iff, Option.getD_some, htext]
  simp [hne, hparse]

/-- The text written for criteria is decoded, exactly if it is within the limits, to what they are
read as. -/
theorem Limits.decode_written {limits : Limits} {cs cs' : List Criterion}
    (h : List.Forall₂ Criterion.ReadsAs cs cs') :
    (limits.decode (some (String.ofList (writeCriteria cs)))).outcome = .ok cs' ↔
      byteLength (writeCriteria cs) ≤ limits.maxPayloadBytes ∧
        cs.length ≤ limits.maxCriteria := by
  obtain ⟨d, hchars, hcriteria⟩ := exists_document h
  have htext : Text.trim (String.ofList (writeCriteria cs)).toList = d.chars := by
    rw [String.toList_ofList, ← hchars, Document.trim_chars]
  rw [outcome_decode_eq_ok_iff htext hcriteria, hchars, h.length_eq]

end Criteria
