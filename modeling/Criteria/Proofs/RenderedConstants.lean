import Criteria.Proofs.Payload.Exact
import Criteria.Proofs.Rendering
import Criteria.Proofs.Time.Rendering
import Criteria.Proofs.TimeConstants
import Criteria.Proofs.ValueOrder

set_option autoImplicit false

/-! # Rendered values as constants

The text of a value, copied into a criterion, stands for that value: for every kind but floats, and
texts, the characters of a value are read as one that compares equal (`Literal.coerce_rendered`).
One class of moments is an exception. A leap second in the middle of a minute is written like the
second that follows, and the text stands for that second (`Literal.coerce_rendered_mid_minute`). An
integer may be sent as a number or as a text. A text is taken as it is. -/

namespace Criteria

open Number Time
open Payload (Digits Numeral natDigits_ne_nil isDigit_natDigits noLeadingZero_natDigits)

/-! ## Words -/

namespace Number

/-- An integer as it is written. -/
def WrittenInt.ofInt (i : Int) : WrittenInt where
  sign := if i < 0 then ['-'] else []
  sign_eq := by
    split
    · exact Or.inr (Or.inr rfl)
    · exact Or.inl rfl
  digits := .ofNat i.natAbs

theorem WrittenInt.chars_ofInt (i : Int) : (ofInt i).chars = intDigits i := by
  rw [chars, intDigits, ofInt]
  split <;> rfl

theorem WrittenInt.value_ofInt (i : Int) : (ofInt i).value = i := by
  have hdigits : digitsValue (ofInt i).digits.chars = i.natAbs := digitsValue_natDigits i.natAbs
  rw [value, hdigits, ofInt]
  by_cases hneg : i < 0
  · rw [if_pos (by simp [hneg])]
    omega
  · rw [if_neg (by simp [hneg])]
    omega

/-- What is written for a word is read as it. -/
theorem readWord?_wordDigits (w : Int64) : readWord? (wordDigits w) = some w := by
  have hread : readInt? (wordDigits w) = some w.toInt :=
    readInt?_eq_some_iff.2 ⟨.ofInt w.toInt, WrittenInt.chars_ofInt _, WrittenInt.value_ofInt _⟩
  rw [readWord?, hread, Option.bind_some, word?_eq_some_iff]

/-! ## Decimals -/

namespace Decimal

/-- The digits of a decimal, with at least one before the point. -/
def digits (d : Decimal) : List Char := padded (d.scale + 1) d.coefficient

theorem isDigit_digits {d : Decimal} {c : Char} (h : c ∈ d.digits) : c.isDigit = true :=
  isDigit_of_mem_padded h

/-- The number of digits before the point. -/
def wholeLength (d : Decimal) : Nat := d.digits.length - d.scale

theorem scale_lt_length (d : Decimal) : d.scale < d.digits.length :=
  le_length_padded (d.scale + 1) d.coefficient

theorem length_fraction (d : Decimal) : (d.digits.drop d.wholeLength).length = d.scale := by
  have hscale := d.scale_lt_length
  rw [List.length_drop, wholeLength]
  omega

/-- A zero is written before the point only by itself. -/
theorem noLeadingZero_whole (d : Decimal) : d.digits.take d.wholeLength = ['0'] ∨
    (d.digits.take d.wholeLength).head? ≠ some '0' := by
  have hlength := length_padded_eq_max (d.scale + 1) d.coefficient
  obtain ⟨k, hk⟩ : ∃ k, d.wholeLength = k + 1 :=
    Nat.exists_eq_add_one.2 (Nat.sub_pos_of_lt d.scale_lt_length)
  by_cases hshort : (natDigits d.coefficient).length ≤ d.scale
  · -- the number was filled up with zeros, of which one stands before the point
    have hone : k = 0 := by
      rw [Nat.max_eq_left (Nat.le_succ_of_le hshort)] at hlength
      rw [wholeLength, digits, hlength] at hk
      omega
    obtain ⟨zeros, hzeros⟩ : ∃ z, d.scale + 1 - (natDigits d.coefficient).length = z + 1 :=
      Nat.exists_eq_add_one.2 (by omega)
    rw [hk, hone, digits, padded, hzeros, List.replicate_succ]
    exact Or.inl rfl
  · have hall : d.digits = natDigits d.coefficient := by
      rw [digits, padded, Nat.sub_eq_zero_of_le (Nat.not_le.1 hshort)]
      rfl
    rw [hall, hk]
    rcases noLeadingZero_natDigits d.coefficient with hzero | hhead
    · rw [hzero, List.take_succ_cons, List.take_nil]
      exact Or.inl rfl
    · rw [List.head?_take, if_neg (Nat.succ_ne_zero k)]
      exact Or.inr hhead

/-- A decimal as it is written. -/
def numeral (d : Decimal) : Numeral where
  negative := d.negative
  whole := {
    chars := d.digits.take d.wholeLength
    ne_nil := by
      have hscale := d.scale_lt_length
      rw [← List.length_pos_iff, List.length_take, wholeLength]
      omega
    isDigit := fun _ hc => isDigit_digits (List.mem_of_mem_take hc) }
  noLeadingZero := d.noLeadingZero_whole
  fraction :=
    if h : d.scale = 0 then none
    else some {
      chars := d.digits.drop d.wholeLength
      ne_nil := List.ne_nil_of_length_pos (by rw [length_fraction]; exact Nat.pos_of_ne_zero h)
      isDigit := fun _ hc => isDigit_digits (List.mem_of_mem_drop hc) }
  power := none

theorem chars_numeral (d : Decimal) : d.numeral.chars = d.chars := by
  rw [Numeral.chars, Numeral.body, numeral, chars]
  dsimp only
  split <;> split <;> simp [Digits.fractionChars, Payload.Power.chars, digits, wholeLength]

theorem decimals_numeral (d : Decimal) : d.numeral.decimals = d.digits.drop d.wholeLength := by
  by_cases hscale : d.scale = 0
  · have hnone : d.digits.drop d.wholeLength = [] :=
      List.length_eq_zero_iff.1 (d.length_fraction.trans hscale)
    rw [hnone, Numeral.decimals, numeral, dif_pos hscale]
  · rw [Numeral.decimals, numeral, dif_neg hscale]

theorem significand_numeral (d : Decimal) : d.numeral.significand = d.coefficient := by
  rw [Numeral.significand, decimals_numeral, numeral, List.take_append_drop, digits,
    digitsValue_padded]

theorem toRat_numeral (d : Decimal) : d.numeral.toRat = d.toRat := by
  rw [Numeral.toRat, Numeral.size_eq, significand_numeral, Numeral.exponent, decimals_numeral,
    length_fraction, toRat_eq, numeral, Payload.Power.exponent, zero_sub, zpow_neg, zpow_natCast,
    div_eq_mul_inv]

/-- What is written for a decimal is read as the same number. -/
theorem exists_read?_self (d : Decimal) : ∃ e, read? d.chars = some e ∧ e.compare d = .eq := by
  obtain ⟨e, he, hrat⟩ := exists_read?_chars (n := d.numeral) rfl
    (by rw [significand_numeral]; exact d.coefficient_lt)
    (by rw [decimals_numeral, length_fraction]; exact d.scale_le)
  exact ⟨e, by rw [← chars_numeral, he], compare_eq_eq_iff_toRat.2 (hrat.trans d.toRat_numeral)⟩

/-- The digits of a word are read as that number. -/
theorem exists_read?_wordDigits (w : Int64) :
    ∃ e, read? (wordDigits w) = some e ∧ (ofWord w).compare e = .eq := by
  have hlow := w.le_toInt
  have hhigh := w.toInt_lt
  have hinteger := (Numeral.isWord_ofInt w).integer
  have hsignificand : (Numeral.ofInt w.toInt).significand = w.toInt.natAbs :=
    (Payload.Numeral.parts_of_isInteger hinteger).2.trans (digitsValue_natDigits _)
  have hpow : Nat.pow 2 96 = 79228162514264337593543950336 := rfl
  obtain ⟨e, he, hrat⟩ := exists_read?_chars (n := Numeral.ofInt w.toInt) rfl
    (by rw [hsignificand]; omega) (Nat.zero_le 28)
  rw [Numeral.chars_ofInt] at he
  refine ⟨e, he, compare_eq_eq_iff_toRat.2 ?_⟩
  rw [hrat, Numeral.toRat_of_isInteger hinteger, Numeral.toInt_ofInt, toRat_ofWord]

end Decimal

end Number

/-! ## Values -/

namespace Value

/-- The values whose text is read: those of all kinds but floats and texts, and of the moments those
in the years with four digits. -/
def ReadsBack : Value → Prop
  | .null | .float _ | .text _ => False
  | .timestamp t => 0 ≤ t.date.year ∧ t.date.year ≤ 9999
  | _ => True

/-- A moment in a leap second is at the end of a minute. -/
def LeapEndsMinute : Value → Prop
  | .timestamp t => t.LeapEndsMinute
  | _ => True

/-- The value that the text of a value shows, which is another only for a moment in a leap second
that does not end its minute. -/
def shown : Value → Value
  | .timestamp t => .timestamp t.shown
  | v => v

/-- There are no blanks around what is written for a value. -/
theorem trim_render {v : Value} (h : ∀ s, v ≠ .text s) : Text.trim v.render.toList = v.chars := by
  rw [render, String.toList_ofList]
  exact (solid_chars h).trim_eq

theorem ReadsBack.ne_text {v : Value} (h : v.ReadsBack) (s : String) : v ≠ .text s := by
  rintro rfl
  exact h

/-- A value is equal to itself, if it is one that compares at all. -/
theorem compare_self {v : Value} (hnull : v ≠ .null) (hnan : v ≠ .float .nan) :
    v.compare v = some .eq := by
  obtain ⟨o, ho⟩ := Option.isSome_iff_exists.1
    (isSome_compare_iff.2 ⟨hnull, hnull, rfl, hnan, hnan⟩)
  -- the reverse of the result is the result
  have hswap := compare_orders_partially.swap v v
  rw [ho, Option.map_some, Option.some.injEq] at hswap
  cases o with
  | lt => cases hswap
  | eq => exact ho
  | gt => cases hswap

/-- What compares equal to the value that is shown compares equal to the value itself if there is no
difference between the two. -/
theorem compare_eq_iff_of_compare_shown {v w : Value} (h : w.compare v.shown = some .eq) :
    w.compare v = some .eq ↔ v.LeapEndsMinute := by
  cases v with
  | timestamp t =>
      rw [LeapEndsMinute, ← Timestamp.shown_eq_self_iff]
      cases w with
      | timestamp u =>
          obtain rfl := Timestamp.compare_eq_eq_iff.1 (Option.some.inj h)
          exact Iff.trans (Option.some_inj) Timestamp.compare_eq_eq_iff
      | _ => cases h
  | _ => exact iff_of_true h trivial

end Value

/-! ## Constants -/

namespace Literal

theorem coerce_of_toKind? {l : Literal} {field : Field} {v : Value} (hnull : l ≠ .null)
    (h : l.toKind? field.kind = some v) : l.coerce field = .ok v := by
  rw [coerce_of_ne_null hnull, h]

/-- The truth values are their words. -/
theorem toBool?_rendered {b : Bool} {s : String}
    (hs : Text.trim s.toList = (Value.bool b).chars) : toBool? (.text s) = some b := by
  rw [toBool?, Text.trimmed, hs]
  cases b <;> rfl

/-- A text that is the rendered value, but for blanks around it, is read as what it shows. -/
theorem toKind?_rendered {v : Value} {kind : Kind} {s : String} (hv : v.ReadsBack)
    (hkind : v.kind? = some kind) (hs : Text.trim s.toList = v.chars) :
    ∃ w, toKind? (.text s) kind = some w ∧ w.compare v.shown = some .eq := by
  cases v with
  | null => exact absurd hv id
  | float x => exact absurd hv id
  | text t => exact absurd hv id
  | bool b =>
      cases hkind
      refine ⟨.bool b, ?_, Value.compare_self (by simp) (by simp)⟩
      rw [toKind?, toBool?_rendered hs, Option.map_some]
  | int i =>
      cases hkind
      refine ⟨.int i, ?_, Value.compare_self (by simp) (by simp)⟩
      rw [toKind?, toWord?, hs, Value.chars, readWord?_wordDigits, Option.map_some]
  | decimal d =>
      cases hkind
      obtain ⟨e, he, hequal⟩ := d.exists_read?_self
      refine ⟨.decimal e, ?_, congrArg some hequal⟩
      rw [toKind?, toDecimal?, hs, Value.chars, he, Option.map_some]
  | timestamp t =>
      cases hkind
      refine ⟨.timestamp t.shown, ?_, Value.compare_self (by simp) (by simp)⟩
      rw [toKind?, toTimestamp?, hs, Value.chars, readTimestamp?_chars hv, Option.map_some]
  | date d =>
      cases hkind
      refine ⟨.date d, ?_, Value.compare_self (by simp) (by simp)⟩
      rw [toKind?, toDate?, hs, Value.chars, readDay?, readDate?_chars, Option.some_or,
        Option.map_some]
  | uuid u =>
      cases hkind
      refine ⟨.uuid u, ?_, Value.compare_self (by simp) (by simp)⟩
      rw [toKind?, toUuid?, hs, Value.chars, Uuid.read?_chars, Option.map_some]

/-- The text of a moment stands for the moment that it shows. -/
theorem coerce_timestamp_rendered {t : Timestamp} (h : 0 ≤ t.date.year ∧ t.date.year ≤ 9999)
    {field : Field} (hkind : field.kind = .timestamp) :
    coerce (.text (Value.timestamp t).render) field = .ok (.timestamp t.shown) := by
  have hchars : Text.trim (Value.timestamp t).render.toList = t.chars := Value.trim_render (by simp)
  rw [coerce_timestamp_text hkind, hchars, readTimestamp?_chars h]

/-- No literal is coerced to a leap second in the middle of a minute. -/
theorem leapEndsMinute_of_coerce {l : Literal} {field : Field} {v : Value}
    (h : l.coerce field = .ok v) : v.LeapEndsMinute := by
  cases v with
  | timestamp t =>
      obtain ⟨-, -, hnull⟩ | ⟨hnull, hkind⟩ := kind?_of_coerce h
      · cases hnull
      · have hmoment : field.kind = .timestamp := (Option.some.inj hkind).symm
        obtain ⟨s, rfl⟩ : ∃ s, l = .text s := by
          rw [coerce_of_ne_null hnull, hmoment] at h
          cases l with
          | text s => exact ⟨s, rfl⟩
          | _ => cases h
        rw [coerce_timestamp_text hmoment] at h
        split at h
        · next u hu =>
            obtain rfl := Value.timestamp.inj (Except.ok.inj h)
            exact leapEndsMinute_of_readTimestamp? hu
        · cases h
  | _ => trivial

/-- An integer may be sent as a number or as its text. -/
theorem coerce_int_rendered (n : Int64) {field : Field}
    (hkind : field.kind = .int ∨ field.kind = .decimal ∨ field.kind = .text) :
    ∃ v w, coerce (.int n) field = .ok v ∧ coerce (.text (Value.int n).render) field = .ok w ∧
      v.compare w = some .eq := by
  have hchars : Text.trim (Value.int n).render.toList = wordDigits n := Value.trim_render (by simp)
  rcases hkind with hkind | hkind | hkind
  · refine ⟨.int n, .int n, coerce_of_toKind? (by simp) (by rw [hkind]; rfl),
      coerce_of_toKind? (by simp) ?_, Value.compare_self (by simp) (by simp)⟩
    rw [hkind, toKind?, toWord?, hchars, readWord?_wordDigits, Option.map_some]
  · obtain ⟨e, he, hequal⟩ := Decimal.exists_read?_wordDigits n
    refine ⟨.decimal (Decimal.ofWord n), .decimal e,
      coerce_of_toKind? (by simp) (by rw [hkind]; rfl), coerce_of_toKind? (by simp) ?_,
      congrArg some hequal⟩
    rw [hkind, toKind?, toDecimal?, hchars, he, Option.map_some]
  · exact ⟨.text (Value.int n).render, .text (Value.int n).render,
      coerce_of_toKind? (by simp) (by rw [hkind]; rfl),
      coerce_of_toKind? (by simp) (by rw [hkind]; rfl), Value.compare_self (by simp) (by simp)⟩

/-- **Coercion undoes rendering.** The text of a value that is an integer, a decimal, a truth value,
a date, an identifier, or a moment in the years with four digits, with any blanks around it, is
coerced for a field of its kind, to what the text shows. That compares equal to the value, unless
the value is a leap second in the middle of a minute, which is written as the second that follows,
and to which no literal is coerced. An integer comes to equal values as a number and as its text,
and a field of texts takes every text as it is. -/
theorem coerce_rendered :
    (∀ (v : Value) (field : Field) (before after : String), v.ReadsBack →
      v.kind? = some field.kind → (∀ c ∈ before.toList, Text.isBlank c = true) →
      (∀ c ∈ after.toList, Text.isBlank c = true) →
      ∃ w, coerce (.text (before ++ v.render ++ after)) field = .ok w ∧
        w.compare v.shown = some .eq ∧ (w.compare v = some .eq ↔ v.LeapEndsMinute)) ∧
    (∀ (l : Literal) (field : Field) (v : Value), l.coerce field = .ok v → v.LeapEndsMinute) ∧
    (∀ (n : Int64) (field : Field),
      field.kind = .int ∨ field.kind = .decimal ∨ field.kind = .text →
      ∃ v w, coerce (.int n) field = .ok v ∧ coerce (.text (Value.int n).render) field = .ok w ∧
        v.compare w = some .eq) ∧
    ∀ (s : String) (field : Field), field.kind = .text →
      coerce (.text s) field = .ok (.text s) := by
  refine ⟨?_, fun _ _ _ => leapEndsMinute_of_coerce, fun n _ => coerce_int_rendered n, ?_⟩
  · intro v field before after hv hkind hbefore hafter
    have hs : Text.trim (before ++ v.render ++ after).toList = v.chars := by
      rw [String.toList_append, String.toList_append, List.append_assoc, Value.render,
        String.toList_ofList, Value.trim_around hv.ne_text hbefore hafter]
    obtain ⟨w, hw, hshown⟩ := toKind?_rendered hv hkind hs
    exact ⟨w, coerce_of_toKind? (by simp) hw, hshown, Value.compare_eq_iff_of_compare_shown hshown⟩
  · intro s field hkind
    exact coerce_of_toKind? (by simp) (by rw [hkind]; rfl)

/-- The leap second at the end of 2016. -/
theorem coerce_rendered_leap_second :
    ∃ w, coerce (.text ("\t" ++ (Value.timestamp ⟨⟨2016, 12, 31, by decide⟩, 86399, 1500000000,
        by decide, by decide⟩).render ++ "\n")) ⟨"SeenAt", .timestamp, false⟩ = .ok w ∧
      w.compare (.timestamp ⟨⟨2016, 12, 31, by decide⟩, 86399, 1500000000, by decide, by decide⟩) =
        some .eq := by
  obtain ⟨w, hw, -, hequal⟩ := coerce_rendered.1
    (.timestamp ⟨⟨2016, 12, 31, by decide⟩, 86399, 1500000000, by decide, by decide⟩)
    ⟨"SeenAt", .timestamp, false⟩ "\t" "\n" ⟨by decide, by decide⟩ rfl
    (List.all_eq_true.1 rfl) (List.all_eq_true.1 rfl)
  exact ⟨w, hw, hequal.2 fun _ => rfl⟩

/-- Half a second into a leap second that does not end its minute. -/
def midMinute : Timestamp :=
  ⟨⟨2024, 3, 1, by decide⟩, 43200, 1500000000, by decide, by decide⟩

/-- The text of a leap second in the middle of a minute shows the second that follows, and is not
coerced to anything that compares equal. The start of that second comes behind the leap second, but
ahead of what its text is coerced to. -/
theorem coerce_rendered_mid_minute :
    (Value.timestamp midMinute).ReadsBack ∧
    (Value.timestamp midMinute).render = "2024-03-01T12:00:01.500+00:00" ∧
    (¬∃ w, coerce (.text (Value.timestamp midMinute).render) ⟨"T", .timestamp, false⟩ = .ok w ∧
      w.compare (.timestamp midMinute) = some .eq) ∧
    ∃ w, coerce (.text (Value.timestamp midMinute).render) ⟨"T", .timestamp, false⟩ = .ok w ∧
      (Value.timestamp ⟨⟨2024, 3, 1, by decide⟩, 43201, 0, by decide, by decide⟩).compare
        (.timestamp midMinute) = some .gt ∧
      (Value.timestamp ⟨⟨2024, 3, 1, by decide⟩, 43201, 0, by decide, by decide⟩).compare w =
        some .lt := by
  have hyear : 0 ≤ midMinute.date.year ∧ midMinute.date.year ≤ 9999 := ⟨by decide, by decide⟩
  have hread : coerce (.text (Value.timestamp midMinute).render) ⟨"T", .timestamp, false⟩ =
      .ok (.timestamp midMinute.shown) := coerce_timestamp_rendered hyear rfl
  refine ⟨hyear, by decide, ?_, _, hread, by decide, by decide⟩
  rintro ⟨w, hw, hequal⟩
  obtain rfl := Except.ok.inj (hread.symm.trans hw)
  revert hequal
  decide

end Literal

end Criteria
