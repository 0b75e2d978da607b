import Criteria.Proofs.Number.DecimalDigits

set_option autoImplicit false

/-! # Decimals in texts

A text is read as a decimal if it has the form of one (`WrittenDecimal`: a sign, digits, perhaps a
power of ten) and if it fits. The number has to be below the limit, and what its power of ten makes
of it as well; and the power may not exceed the greatest scale, in either direction
(`exists_read?_iff`). -/

namespace Criteria.Number.Decimal

open Payload (Digits)

variable {v : ℚ} {coefficient scale : Nat}

/-! ## Decimals without a power of ten -/

/-- The size of digits with at most one point. -/
def size (cs : List Char) : ℚ :=
  digitsValue (cs.filter Char.isDigit) / 10 ^ ((cs.dropWhile (· ≠ '.')).filter Char.isDigit).length

theorem numberOf_eq_size (cs : List Char) : numberOf 0 0 false cs = size cs := by
  simp [numberOf, decimals, size, digitsValue]

theorem Stands.lt_decimalLimit (h : Stands v coefficient scale) : v < decimalLimit := by
  have hfits := (h.fits_iff 0 (Nat.zero_le 28)).1
  rw [pow_zero, mul_one] at hfits
  refine hfits (Nat.mul_lt_mul_of_lt_of_le h.coefficient_lt ?_ (Nat.pow_pos (by decide)))
  exact Nat.pow_le_pow_right (by decide) (Nat.zero_le scale)

theorem exists_ofParts?_iff (negative : Bool) :
    (∃ d, ofParts? negative coefficient scale = some d) ↔
      coefficient < Nat.pow 2 96 ∧ scale ≤ 28 := by
  unfold ofParts?
  split_ifs with h
  · exact iff_of_true ⟨_, rfl⟩ h
  · exact iff_of_false (by simp) h

theorem parts_of_ofParts? {negative : Bool} {d : Decimal}
    (h : ofParts? negative coefficient scale = some d) :
    d.coefficient = coefficient ∧ d.scale = scale := by
  unfold ofParts? at h
  split_ifs at h
  cases h
  exact ⟨rfl, rfl⟩

theorem head?_of_continues {point seen : Bool} {cs : List Char} (h : Continues point seen cs) :
    ∀ c ∈ cs.head?, c ≠ '+' ∧ c ≠ '-' := by
  intro c hc
  rcases h.chars c (List.mem_of_mem_head? hc) with hdigit | rfl | rfl
  · exact ne_sign_of_isDigit hdigit
  · decide
  · decide

/-- What is read without a power of ten has the form of a decimal, and stands for its number. -/
theorem stands_of_readPlain? {cs : List Char} {d : Decimal} (h : readPlain? cs = some d) :
    ∃ sign body, IsSign sign ∧ Continues false false body ∧ cs = sign ++ body ∧
      Stands (size body) d.coefficient d.scale := by
  obtain ⟨sign, hsign, hcs, -⟩ := exists_sign cs
  obtain ⟨parts, hparts, hd⟩ := Option.bind_eq_some_iff.1 h
  obtain ⟨hform, hstands⟩ :=
    (reads_readParts? _ (by decide) (by decide) (fun _ => rfl)).sound parts hparts
  obtain ⟨hcoefficient, hscale⟩ := parts_of_ofParts? hd
  rw [numberOf_eq_size, ← hcoefficient, ← hscale] at hstands
  exact ⟨sign, _, hsign, hform, hcs, hstands⟩

theorem exists_readPlain? {sign body : List Char} (hsign : IsSign sign)
    (hform : Continues false false body) (hlt : size body < decimalLimit) :
    ∃ d, readPlain? (sign ++ body) = some d ∧ Stands (size body) d.coefficient d.scale := by
  have hreads : Reads 0 0 false false body (readParts? 0 0 false false body) :=
    reads_readParts? body (by decide) (by decide) fun _ => rfl
  obtain ⟨parts, hparts⟩ := hreads.complete hform (by rwa [numberOf_eq_size])
  obtain ⟨-, hstands⟩ := hreads.sound parts hparts
  obtain ⟨d, hd⟩ := (exists_ofParts?_iff (decide (sign = ['-']) && parts.1 != 0)).2
    ⟨hstands.coefficient_lt, hstands.scale_le⟩
  refine ⟨d, ?_, ?_⟩
  · rw [readPlain?, takeSign_append hsign (head?_of_continues hform)]
    dsimp only
    rw [hparts, Option.bind_some, ofUnsignedZero?, hd]
  · obtain ⟨hcoefficient, hscale⟩ := parts_of_ofParts? hd
    rwa [hcoefficient, hscale, ← numberOf_eq_size]

/-! ## Powers of ten -/

theorem exists_scaleUp?_iff (d : Decimal) (e : Nat) :
    (∃ d', d.scaleUp? e = some d') ↔
      e ≤ 28 ∧ d.coefficient * Nat.pow 10 e < Nat.pow 2 96 * Nat.pow 10 d.scale := by
  have hscale := d.scale_le
  unfold scaleUp?
  split_ifs with hsmall hlarge
  · refine iff_of_true ?_ ⟨by omega, ?_⟩
    · exact (exists_ofParts?_iff _).2 ⟨d.coefficient_lt, by omega⟩
    · exact Nat.mul_lt_mul_of_lt_of_le d.coefficient_lt
        (Nat.pow_le_pow_right (by decide) hsmall) (Nat.pow_pos (by decide))
  · rw [maxScale] at hlarge
    exact iff_of_false (by simp) (by omega)
  · rw [maxScale] at hlarge
    have hsplit : Nat.pow 10 e = Nat.pow 10 (e - d.scale) * Nat.pow 10 d.scale := by
      rw [Nat.pow_eq, Nat.pow_eq, Nat.pow_eq, ← Nat.pow_add]
      congr 1
      omega
    have hpos : 0 < Nat.pow 10 d.scale := Nat.pow_pos (by decide)
    rw [exists_ofParts?_iff, hsplit, ← Nat.mul_assoc, Nat.mul_lt_mul_right hpos]
    constructor
    · exact fun h => ⟨by omega, h.1⟩
    · exact fun h => ⟨h.2, by omega⟩

theorem exists_scaleDown?_iff (d : Decimal) (e : Nat) :
    (∃ d', d.scaleDown? e = some d') ↔ e ≤ 28 := by
  unfold scaleDown?
  split_ifs with hlarge hfits
  · rw [maxScale] at hlarge
    exact iff_of_false (by simp) (by omega)
  · rw [maxScale] at hlarge hfits
    exact iff_of_true ((exists_ofParts?_iff _).2 ⟨d.coefficient_lt, hfits⟩) (by omega)
  · rw [maxScale] at hlarge
    refine iff_of_true ((exists_ofParts?_iff _).2 ⟨?_, by decide⟩) (by omega)
    have hquotient := Nat.div_le_self d.coefficient (Nat.pow 10 (d.scale + e - maxScale - 1))
    have hcoefficient := d.coefficient_lt
    have hpow : Nat.pow 2 96 = 79228162514264337593543950336 := rfl
    rw [dropRounded, hpow]
    omega

/-- A power of ten behind a decimal. A plus sign may stand behind a minus sign as well. -/
structure DecimalPower where
  mark : Char
  mark_eq : mark = 'e' ∨ mark = 'E'
  down : Bool
  plus : List Char
  plus_eq : plus = [] ∨ plus = ['+']
  digits : Digits

namespace DecimalPower

/-- The text of a power of ten. -/
def chars (p : DecimalPower) : List Char :=
  p.mark :: ((if p.down then ['-'] else []) ++ (p.plus ++ p.digits.chars))

/-- By how many places the power moves the point. -/
def amount (p : DecimalPower) : Nat := digitsValue p.digits.chars

end DecimalPower

theorem readAmount?_eq_some_iff {cs : List Char} {n : Nat} :
    readAmount? cs = some n ↔ ∃ plus, ∃ digits : Digits, (plus = [] ∨ plus = ['+']) ∧
      cs = plus ++ digits.chars ∧ digitsValue digits.chars = n ∧ n < UInt32.size := by
  constructor
  · intro h
    obtain ⟨hread, hsize⟩ := Option.filter_eq_some_iff.1 h
    obtain ⟨digits, hdigits, hvalue⟩ := readNat?_eq_some_iff.1 hread
    have hlt : n < UInt32.size := by simpa using hsize
    split at hdigits
    · exact ⟨['+'], digits, Or.inr rfl, by rw [hdigits]; rfl, hvalue, hlt⟩
    · exact ⟨[], digits, Or.inl rfl, hdigits.symm, hvalue, hlt⟩
  · rintro ⟨plus, digits, hplus, rfl, rfl, hlt⟩
    have hread : readNat? digits.chars = some (digitsValue digits.chars) :=
      readNat?_eq_some_iff.2 ⟨digits, rfl, rfl⟩
    refine Option.filter_eq_some_iff.2 ⟨?_, by simpa using hlt⟩
    rcases hplus with rfl | rfl
    · rw [List.nil_append]
      split
      · next hcons =>
          have hhead := head?_digits digits '+' (by simp [hcons])
          exact absurd rfl hhead.1
      · exact hread
    · exact hread

/-- A decimal as a text writes it. -/
structure WrittenDecimal where
  sign : List Char
  sign_eq : IsSign sign
  body : List Char
  form : Continues false false body
  power : Option DecimalPower

namespace WrittenDecimal

/-- The text of a decimal. -/
def chars (w : WrittenDecimal) : List Char :=
  w.sign ++ (w.body ++ (w.power.map DecimalPower.chars).getD [])

/-- The number is below the limit, and the power neither leads past it nor exceeds the scales. -/
def Fits (w : WrittenDecimal) : Prop :=
  size w.body < decimalLimit ∧
    ∀ p ∈ w.power, p.amount ≤ 28 ∧ (p.down = false → size w.body * 10 ^ p.amount < decimalLimit)

end WrittenDecimal

/-- The mark of a power of ten. -/
def isMark (c : Char) : Bool := c == 'e' || c == 'E'

theorem isMark_iff {c : Char} : isMark c = true ↔ c = 'e' ∨ c = 'E' := by simp [isMark]

/-- The decimal that the mark and what is behind it make of the one before them. -/
def scaledBy? (base : Decimal) : List Char → Option Decimal
  | [] => none
  | _ :: '-' :: r => (readAmount? r).bind base.scaleDown?
  | _ :: r => (readAmount? r).bind base.scaleUp?

theorem readScientific?_eq (cs : List Char) :
    readScientific? cs = (readPlain? (cs.takeWhile fun c => !isMark c)).bind fun base =>
      scaledBy? base (cs.dropWhile fun c => !isMark c) := rfl

/-- What is read with a power of ten has the form of a decimal, and fits. -/
theorem exists_written_of_readScientific? {cs : List Char} {d : Decimal}
    (h : readScientific? cs = some d) : ∃ w : WrittenDecimal, w.chars = cs ∧ w.Fits := by
  have hcs := List.takeWhile_append_dropWhile (p := fun c => !isMark c) (l := cs)
  have hhead := List.head?_dropWhile_not (fun c => !isMark c) cs
  rw [readScientific?_eq] at h
  obtain ⟨base, hbase, h⟩ := Option.bind_eq_some_iff.1 h
  obtain ⟨sign, body, hsign, hform, htake, hstands⟩ := stands_of_readPlain? hbase
  rw [htake] at hcs
  unfold scaledBy? at h
  split at h
  · cases h
  · next mark r hdrop =>
      rw [hdrop] at hcs hhead
      have hmark : isMark mark = true := by simpa using hhead
      obtain ⟨n, hn, hd⟩ := Option.bind_eq_some_iff.1 h
      obtain ⟨plus, digits, hplus, rfl, rfl, -⟩ := readAmount?_eq_some_iff.1 hn
      refine ⟨⟨sign, hsign, body, hform,
        some ⟨mark, isMark_iff.1 hmark, true, plus, hplus, digits⟩⟩, ?_, hstands.lt_decimalLimit,
        ?_⟩
      · rw [← hcs]
        simp [WrittenDecimal.chars, DecimalPower.chars]
      · intro p hp
        obtain rfl := Option.some.inj hp
        exact ⟨(exists_scaleDown?_iff base _).1 ⟨d, hd⟩, by simp⟩
  · next mark r hminus hdrop =>
      rw [hdrop] at hcs hhead
      have hmark : isMark mark = true := by simpa using hhead
      obtain ⟨n, hn, hd⟩ := Option.bind_eq_some_iff.1 h
      obtain ⟨plus, digits, hplus, rfl, rfl, -⟩ := readAmount?_eq_some_iff.1 hn
      obtain ⟨hamount, hfits⟩ := (exists_scaleUp?_iff base _).1 ⟨d, hd⟩
      refine ⟨⟨sign, hsign, body, hform,
        some ⟨mark, isMark_iff.1 hmark, false, plus, hplus, digits⟩⟩, ?_, hstands.lt_decimalLimit,
        ?_⟩
      · rw [← hcs]
        simp [WrittenDecimal.chars, DecimalPower.chars]
      · intro p hp
        obtain rfl := Option.some.inj hp
        exact ⟨hamount, fun _ => (hstands.fits_iff _ hamount).1 hfits⟩

theorem isMark_eq_false (w : WrittenDecimal) : ∀ c ∈ w.sign ++ w.body, (!isMark c) = true := by
  intro c hc
  rcases List.mem_append.1 hc with hsign | hbody
  · rcases w.sign_eq with h | h | h
    · rw [h] at hsign
      cases hsign
    · rw [h, List.mem_singleton] at hsign
      rw [hsign]
      decide
    · rw [h, List.mem_singleton] at hsign
      rw [hsign]
      decide
  · rcases w.form.chars c hbody with hdigit | rfl | rfl
    · rw [Bool.not_eq_true', Bool.eq_false_iff, ne_eq, isMark_iff]
      rintro (rfl | rfl)
      · cases hdigit
      · cases hdigit
    · decide
    · decide

/-- A decimal with a power of ten that fits is read. -/
theorem exists_readScientific? {w : WrittenDecimal} {p : DecimalPower} (hpower : w.power = some p)
    (hfits : w.Fits) : ∃ d, readScientific? w.chars = some d := by
  obtain ⟨hlt, hscaled⟩ := hfits
  obtain ⟨hamount, hup⟩ := hscaled p hpower
  obtain ⟨base, hbase, hstands⟩ := exists_readPlain? w.sign_eq w.form hlt
  have hchars : w.chars = w.sign ++ w.body ++ p.chars := by
    simp [WrittenDecimal.chars, hpower]
  have hmark : (!isMark p.mark) = false := by simpa using isMark_iff.2 p.mark_eq
  have htake : w.chars.takeWhile (fun c => !isMark c) = w.sign ++ w.body := by
    rw [hchars, List.takeWhile_append_of_pos (isMark_eq_false w), DecimalPower.chars,
      List.takeWhile_cons_of_neg (by rw [hmark]; decide), List.append_nil]
  have hdrop : w.chars.dropWhile (fun c => !isMark c) = p.chars := by
    rw [hchars, List.dropWhile_append_of_pos (isMark_eq_false w), DecimalPower.chars,
      List.dropWhile_cons_of_neg (by rw [hmark]; decide)]
  have hread : readAmount? (p.plus ++ p.digits.chars) = some p.amount := by
    refine readAmount?_eq_some_iff.2 ⟨p.plus, p.digits, p.plus_eq, rfl, rfl, ?_⟩
    exact Nat.lt_of_le_of_lt hamount (by decide)
  rw [readScientific?_eq, htake, hdrop, hbase, Option.bind_some, DecimalPower.chars]
  cases hdown : p.down with
  | true =>
      rw [if_pos rfl]
      change ∃ d, (readAmount? (p.plus ++ p.digits.chars)).bind base.scaleDown? = some d
      rw [hread, Option.bind_some]
      exact (exists_scaleDown?_iff base p.amount).2 hamount
  | false =>
      rw [if_neg Bool.false_ne_true, List.nil_append]
      unfold scaledBy?
      split
      · next heq => cases heq
      · next mark r heq =>
          -- neither a plus sign nor a digit is a minus sign
          exfalso
          have htail := (List.cons.inj heq).2
          rcases p.plus_eq with hplus | hplus
          · rw [hplus, List.nil_append] at htail
            exact (head?_digits p.digits '-' (by simp [htail])).2 rfl
          · rw [hplus] at htail
            cases htail
      · next heq =>
          obtain ⟨-, rfl⟩ := List.cons.inj heq
          rw [hread, Option.bind_some]
          refine (exists_scaleUp?_iff base p.amount).2 ⟨hamount, ?_⟩
          exact (hstands.fits_iff _ hamount).2 (hup hdown)

/-- A text is read as a decimal if it writes one that fits. -/
theorem exists_read?_iff (cs : List Char) :
    (∃ d, read? cs = some d) ↔ ∃ w : WrittenDecimal, w.chars = cs ∧ w.Fits := by
  constructor
  · rintro ⟨d, hd⟩
    rcases Option.or_eq_some_iff.1 hd with hplain | ⟨-, hscientific⟩
    · obtain ⟨sign, body, hsign, hform, rfl, hstands⟩ := stands_of_readPlain? hplain
      refine ⟨⟨sign, hsign, body, hform, none⟩, ?_, hstands.lt_decimalLimit, by simp⟩
      simp [WrittenDecimal.chars]
    · exact exists_written_of_readScientific? hscientific
  · rintro ⟨w, rfl, hfits⟩
    cases hpower : w.power with
    | none =>
        obtain ⟨d, hd, -⟩ := exists_readPlain? w.sign_eq w.form hfits.1
        refine ⟨d, Option.or_eq_some_iff.2 (Or.inl ?_)⟩
        rw [← hd, WrittenDecimal.chars, hpower]
        simp
    | some p =>
        obtain ⟨d, hd⟩ := exists_readScientific? hpower hfits
        cases hplain : readPlain? w.chars with
        | some d' => exact ⟨d', by rw [read?, hplain, Option.some_or]⟩
        | none => exact ⟨d, by rw [read?, hplain, Option.none_or, hd]⟩

end Criteria.Number.Decimal
