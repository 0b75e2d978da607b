import Criteria.Coercion
import Criteria.Number.Decimal.Text
import Criteria.Proofs.Number.DecimalExact
import Criteria.Proofs.Number.Written
import Criteria.Proofs.Payload.Doubles

set_option autoImplicit false

/-! # Numbers that become exact decimals

A number of a payload becomes a decimal through a word or through a double. Three kinds of numbers
are sure to come through unchanged (`Numeral.ComesExact`): the integers in the range of words; whole
numbers up to `2 ^ 53` with a small power of ten; and fractions of at most 52 bits whose double is
not too far above them. The characters of a number, sent as a text, are read without a double, and
exactly whenever they fit a decimal (`exists_read?_chars`). -/

namespace Criteria.Number.Decimal

/-! ## Words -/

/-- An integer is its size with its sign. -/
theorem withSign_natAbs (i : Int) : withSign (decide (i < 0)) i.natAbs = i := by
  rw [withSign]
  split
  · next hneg =>
      have hsize : -(i.natAbs : Int) = i := by
        have hlt := of_decide_eq_true hneg
        omega
      rw [← Int.cast_natCast, ← Int.cast_neg, hsize]
  · next hnonneg =>
      have hsize : (i.natAbs : Int) = i := Int.natAbs_of_nonneg
        (not_lt.1 fun h => hnonneg (decide_eq_true h))
      rw [← Int.cast_natCast, hsize]

theorem toRat_ofWord (w : Int64) : (ofWord w).toRat = w.toInt := by
  have hlow := w.le_toInt
  have hhigh := w.toInt_lt
  have hpow : Nat.pow 2 96 = 79228162514264337593543950336 := rfl
  have hfits : w.toInt.natAbs < Nat.pow 2 96 ∧ 0 ≤ 28 := ⟨by omega, by omega⟩
  have hsign : decide (w < 0) = decide (w.toInt < 0) :=
    decide_eq_decide.2 Int64.lt_iff_toInt_lt
  rw [ofWord, ofParts?, dif_pos hfits, Option.getD_some, toRat_eq, pow_zero, div_one, hsign,
    withSign_natAbs]

end Criteria.Number.Decimal

namespace Criteria.Payload

open Number Binary64

/-! ## Scaling by small powers of ten -/

section

variable {significand : Nat} {exponent : Int}

/-- A number with a small negative power of ten has enough units for the error of rounding to be a
part of the number. -/
theorem one_half_le_roundoff_mul (hpos : 0 < significand) (hexponent : -22 ≤ exponent) :
    1 / 2 ≤ roundoff * decimalUnits significand exponent := by
  have hunits : (2 ^ 52 * 10 ^ 22 : ℚ) ≤ unitsPerOne := by
    have hle : 2 ^ 52 * 10 ^ 22 ≤ unitsPerOne := by decide +kernel
    exact_mod_cast hle
  have hone : (1 : ℚ) ≤ significand := by exact_mod_cast hpos
  have hten : (10 : ℚ) ^ (-22 : Int) ≤ 10 ^ exponent :=
    zpow_le_zpow_right₀ (by norm_num) hexponent
  have hleast : (10 : ℚ) ^ (-22 : Int) = 1 / 10 ^ 22 := by norm_num
  rw [hleast] at hten
  have hsize : (1 / 10 ^ 22 : ℚ) ≤ significand * 10 ^ exponent :=
    hten.trans (le_mul_of_one_le_left (zpow_nonneg (by norm_num) _) hone)
  have hmul := mul_le_mul hsize hunits (by norm_num) (le_trans (by norm_num) hsize)
  rw [decimalUnits, roundoff]
  linarith

/-- Where significand and power of ten are doubles, the only error is that of one rounding. -/
theorem abs_scaledTo_sub_le (hsignificand : significand ≤ 2 ^ 53)
    (hexponent : exponent.natAbs ≤ 22) :
    |(scaledTo significand exponent : ℚ) - decimalUnits significand exponent| ≤
      roundoff * decimalUnits significand exponent := by
  obtain ⟨num, den, hden, hscaled, hunits⟩ :=
    exists_scaledTo_eq_roundedUnits hsignificand hexponent
  rcases Nat.eq_zero_or_pos significand with rfl | hpos
  · have hzero : decimalUnits 0 exponent = 0 := by
      rw [decimalUnits, Nat.cast_zero, zero_mul, zero_mul]
    have hnum : num = 0 := by
      rw [hzero, eq_comm, div_eq_zero_iff] at hunits
      exact_mod_cast hunits.resolve_right (Nat.cast_pos.2 hden).ne'
    rw [hscaled, hnum, roundedUnits_zero, hzero, Nat.cast_zero, sub_self, abs_zero, mul_zero]
  · have hround := abs_roundedUnits_sub_le hden hunits
    rw [← hscaled] at hround
    refine hround.trans (max_le ?_ (le_refl _))
    exact one_half_le_roundoff_mul hpos (by omega)

theorem scaledTo_lt_unitsLimit (hsignificand : significand ≤ 2 ^ 53)
    (hexponent : exponent.natAbs ≤ 22) : scaledTo significand exponent < unitsLimit := by
  have hten : (10 : ℚ) ^ exponent ≤ 10 ^ (22 : Int) :=
    zpow_le_zpow_right₀ (by norm_num) (by omega)
  have hcast : (significand : ℚ) ≤ 2 ^ 53 := by exact_mod_cast hsignificand
  have hsize : (significand * 10 ^ exponent : ℚ) ≤ 2 ^ 53 * 10 ^ (22 : Int) :=
    mul_le_mul hcast hten (zpow_nonneg (by norm_num) _) (by norm_num)
  have hunits := mul_le_mul_of_nonneg_right hsize cast_unitsPerOne_pos.le
  have herror := (abs_le.1 (abs_scaledTo_sub_le hsignificand hexponent)).2
  rw [decimalUnits, roundoff] at herror
  have hlimit : 2 ^ 54 * 10 ^ 22 * unitsPerOne < unitsLimit := by decide +kernel
  refine Nat.lt_of_le_of_lt ?_ hlimit
  have hle : (scaledTo significand exponent : ℚ) ≤ 2 ^ 54 * 10 ^ 22 * unitsPerOne := by
    have hnatural : (10 : ℚ) ^ (22 : Int) = 10 ^ 22 := zpow_natCast 10 22
    rw [hnatural] at hunits
    linarith
  exact_mod_cast hle

/-- Such a number is read as a finite double. -/
theorem exists_scaled?_eq (negative : Bool) (hsignificand : significand ≤ 2 ^ 53)
    (hexponent : exponent.natAbs ≤ 22) :
    ∃ m s hc, scaled? negative significand exponent = some (.float (.finite negative m s hc)) ∧
      m * Nat.pow 2 s = scaledTo significand exponent := by
  have hsize : significand < UInt64.size := Nat.lt_of_le_of_lt hsignificand (by decide)
  have hrange : ∀ k : Nat, exponent = k → significand * 10 ^ k < rangeLimit := by
    intro k hk
    have hpow : (10 : Nat) ^ k ≤ 10 ^ 22 := Nat.pow_le_pow_right (by decide) (by omega)
    exact Nat.lt_of_le_of_lt (Nat.mul_le_mul hsignificand hpow) (by decide +kernel)
  obtain ⟨x, hx⟩ := scaled?_of_lt negative hsize hrange
  obtain ⟨y, hy, -⟩ := Option.map_eq_some_iff.1 hx
  have hmax : maxPower = 308 := rfl
  have hunits := hasUnits_of_scaleByTen? hsize (by omega) (by omega) (by omega) hy
  obtain ⟨m, s, hc, rfl, hvalue⟩ :=
    hunits.exists_finite (scaledTo_lt_unitsLimit hsignificand hexponent)
  refine ⟨m, s, hc, ?_, hvalue⟩
  rw [scaled?, hy, Option.map_some]
  cases negative with
  | true => rfl
  | false => rfl

end

/-! ## Numbers that come through unchanged -/

namespace Numeral

open Number.Decimal (withSign Safe)

/-- The number that is written. -/
def toRat (n : Numeral) : ℚ := withSign n.negative n.size

/-- The numbers that are sure to become a decimal unchanged. A written power of ten is one of at
most 31 bits. -/
inductive ComesExact (n : Numeral) : Prop where
  /-- An integer in the range of words. -/
  | word (hinteger : n.IsInteger) (hfits : FitsWord n.toInt)
  /-- A whole number up to `2 ^ 53`. -/
  | whole (hpower : (Power.exponent n.power).natAbs < 2147483648)
      (hwhole : 0 ≤ n.exponent) (hplaces : n.exponent ≤ 22)
      (hlimit : n.significand * 10 ^ n.exponent.toNat ≤ 2 ^ 53)
  /-- A number with few digits, which its double is not too far above. -/
  | short (hpower : (Power.exponent n.power).natAbs < 2147483648)
      (hfraction : n.exponent ≤ 0) (hplaces : -22 ≤ n.exponent) (hlimit : n.significand < 2 ^ 52)
      (hsafe : Safe n.significand n.exponent.natAbs (scaledTo n.significand n.exponent))

theorem size_eq (n : Numeral) : n.size = n.significand * 10 ^ n.exponent := rfl

theorem parts_of_isInteger {n : Numeral} (h : n.IsInteger) :
    n.exponent = 0 ∧ n.significand = n.magnitude := by
  simp [exponent, significand, magnitude, decimals, h.1, h.2, Power.exponent]

theorem fitsWord_of_le {n : Numeral} (h : n.magnitude ≤ 2 ^ 53) : FitsWord n.toInt := by
  rw [toInt, signed]
  split
  · omega
  · omega

theorem toRat_of_isInteger {n : Numeral} (h : n.IsInteger) : n.toRat = n.toInt := by
  rw [toRat, size_of_isInteger h, withSign, toInt, signed]
  split
  · push_cast
    rfl
  · push_cast
    rfl

end Numeral

/-- A double that is an integer in the range of words becomes that integer. -/
theorem exists_toRat_of_toInt? {x : Binary64} {i : Int} (hx : x.toInt? = some i)
    (hfits : FitsWord i) :
    ∃ d, Number.Decimal.ofBinary64? x = some d ∧ d.toRat = i := by
  cases x with
  | infinite => cases hx
  | nan => cases hx
  | finite negative m s hc =>
      rw [toInt?] at hx
      have hpow : Nat.pow 2 96 = 79228162514264337593543950336 := rfl
      split at hx
      · next hwhole =>
          have hunits := (Nat.div_mul_cancel (Nat.dvd_of_mod_eq_zero hwhole)).symm
          generalize m * Nat.pow 2 s / unitsPerOne = whole at hx hunits
          have hi := Option.some.inj hx
          have hlimit : whole < Nat.pow 2 96 := by
            split at hi
            · omega
            · omega
          obtain ⟨d, hd, hrat⟩ := Number.Decimal.exists_toRat_eq_whole negative hc
            hunits hlimit
          refine ⟨d, hd, ?_⟩
          rw [hrat, ← hi, Number.Decimal.withSign]
          split
          · push_cast
            rfl
          · push_cast
            rfl
      · cases hx

theorem exists_toRat_of_double {x : Binary64} {w : Int64} (hw : x.toWord? = some w) :
    ∃ d, Number.Decimal.ofBinary64? x = some d ∧ d.toRat = w.toInt := by
  rw [toWord?_eq] at hw
  obtain ⟨i, hi, hword⟩ := Option.bind_eq_some_iff.1 hw
  obtain rfl := word?_eq_some_iff.1 hword
  have hlow := w.le_toInt
  have hhigh := w.toInt_lt
  exact exists_toRat_of_toInt? hi ⟨by omega, by omega⟩

/-- A number that comes to a word becomes the decimal of that word. -/
theorem exists_toRat_of_toWord? {x : Numeric} {w : Int64}
    (hw : (literalOfNumber x).toWord? = some w) :
    ∃ d, (literalOfNumber x).toDecimal? = some d ∧ d.toRat = w.toInt := by
  cases x with
  | float y => exact exists_toRat_of_double hw
  | int i =>
      rw [literalOfNumber] at hw ⊢
      cases hi : word? i with
      | none =>
          rw [hi] at hw
          exact exists_toRat_of_double hw
      | some w' =>
          rw [hi] at hw
          obtain rfl := Option.some.inj hw
          exact ⟨_, rfl, Number.Decimal.toRat_ofWord w'⟩

/-! ## Short numbers -/

/-- A short number is next to its double. -/
theorem exists_toRat_of_scaled? (negative : Bool) {significand k : Nat} (hk : k ≤ 22)
    (hlimit : significand < 2 ^ 52)
    (hsafe : Number.Decimal.Safe significand k (scaledTo significand (-(k : Int)))) :
    ∃ x d, scaled? negative significand (-(k : Int)) = some (.float x) ∧
      Number.Decimal.ofBinary64? x = some d ∧
      d.toRat = Number.Decimal.withSign negative (significand / 10 ^ k) := by
  have hsignificand : significand ≤ 2 ^ 53 := hlimit.le.trans (by decide)
  have hexponent : (-(k : Int)).natAbs ≤ 22 := by omega
  obtain ⟨m, s, hc, hx, hunits⟩ := exists_scaled?_eq negative hsignificand hexponent
  have herror := abs_scaledTo_sub_le hsignificand hexponent
  rw [decimalUnits_neg, ← div_mul_eq_mul_div, roundoff, ← hunits] at herror
  rw [← hunits] at hsafe
  obtain ⟨d, hd, hrat⟩ := Number.Decimal.exists_toRat_eq negative hc (by omega) hlimit hsafe herror
  exact ⟨_, d, hx, hd, hrat⟩

/-- A whole number up to `2 ^ 53` is its double. -/
theorem exists_toRat_of_scaled?_whole (negative : Bool) {significand k : Nat} (hk : k ≤ 22)
    (hlimit : significand * 10 ^ k ≤ 2 ^ 53) :
    ∃ x d, scaled? negative significand k = some (.float x) ∧
      Number.Decimal.ofBinary64? x = some d ∧
      d.toRat = Number.Decimal.withSign negative (significand * 10 ^ k : Nat) := by
  have hsignificand : significand ≤ 2 ^ 53 :=
    (Nat.le_mul_of_pos_right _ (Nat.pow_pos (by decide))).trans hlimit
  have hexponent : (k : Int).natAbs ≤ 22 := by omega
  obtain ⟨m, s, hc, hx, hunits⟩ := exists_scaled?_eq negative hsignificand hexponent
  have hwhole : scaledTo significand k = significand * 10 ^ k * unitsPerOne := by
    -- the number is a double itself
    have hunits := hasUnits_ofNat (significand * 10 ^ k)
    rw [unitsOf_eq hlimit] at hunits
    have hbelow : 2 ^ 53 * unitsPerOne < unitsLimit := by decide +kernel
    obtain ⟨m', s', hc', -, hvalue⟩ := hunits.exists_finite
      (Nat.lt_of_le_of_lt (Nat.mul_le_mul_right _ hlimit) hbelow)
    rw [← hvalue]
    refine scaledTo_eq hc' hsignificand hexponent ?_
    have hdecimal : decimalUnits significand (k : Int) = m' * 2 ^ s' := by
      have hcast := congrArg (Nat.cast (R := ℚ)) hvalue
      simp only [Nat.pow_eq, Nat.cast_mul, Nat.cast_pow, Nat.cast_ofNat] at hcast
      rw [decimalUnits_natCast, hcast]
    rw [hdecimal]
    exact covers_self m' s'
  obtain ⟨d, hd, hrat⟩ := Number.Decimal.exists_toRat_eq_whole negative hc
    (hunits.trans hwhole) (Nat.lt_of_le_of_lt hlimit (by decide))
  exact ⟨_, d, hx, hd, hrat⟩

theorem Numeral.ComesExact.fitsWord {n : Numeral} (h : n.ComesExact) (hinteger : n.IsInteger) :
    FitsWord n.toInt := by
  obtain ⟨hexponent, hsignificand⟩ := parts_of_isInteger hinteger
  cases h with
  | word _ hfits => exact hfits
  | whole _ _ _ hlimit =>
      rw [hexponent, hsignificand, Int.toNat_zero, pow_zero, Nat.mul_one] at hlimit
      exact fitsWord_of_le hlimit
  | short _ _ _ hlimit _ =>
      rw [hsignificand] at hlimit
      exact fitsWord_of_le (hlimit.le.trans (by decide))

theorem Numeral.exists_toRat_of_isInteger {n : Numeral} (hinteger : n.IsInteger)
    (hfits : FitsWord n.toInt) :
    ∃ x d, n.numeric? = some x ∧ (literalOfNumber x).toDecimal? = some d ∧ d.toRat = n.toRat := by
  have hmagnitude : n.magnitude ≤ 9223372036854775808 := by
    rw [toInt, signed] at hfits
    split at hfits
    · omega
    · omega
  have hrange : n.magnitude < rangeLimit := Nat.lt_of_le_of_lt hmagnitude (by decide +kernel)
  obtain ⟨x, hx⟩ := Option.ne_none_iff_exists'.1 fun hnone =>
    Nat.not_le.2 hrange ((numeric?_eq_none_iff hinteger).1 hnone)
  have hword := toWord?_of_numeric? hinteger hx
  rw [takenFor?_of_le hfits.1, word?, if_pos hfits] at hword
  obtain ⟨d, hd, hrat⟩ := exists_toRat_of_toWord? hword
  refine ⟨x, d, hx, hd, ?_⟩
  rw [hrat, toRat_of_isInteger hinteger, word?_eq_some_iff.1 (if_pos hfits)]

/-- **Exact numbers.** They come through unchanged. -/
theorem Numeral.ComesExact.exists_toRat {n : Numeral} (h : n.ComesExact) :
    ∃ x d, n.numeric? = some x ∧ (literalOfNumber x).toDecimal? = some d ∧ d.toRat = n.toRat := by
  by_cases hinteger : n.IsInteger
  · exact exists_toRat_of_isInteger hinteger (h.fitsWord hinteger)
  cases h with
  | word hinteger' => exact absurd hinteger' hinteger
  | whole hpower hwhole hplaces hlimit =>
      obtain ⟨k, hk⟩ := Int.eq_ofNat_of_zero_le hwhole
      rw [hk, Int.toNat_natCast] at hlimit
      have hsize : n.significand < UInt64.size :=
        Nat.lt_of_le_of_lt (Nat.le_mul_of_pos_right _ (Nat.pow_pos (by decide)))
          (Nat.lt_of_le_of_lt hlimit (by decide))
      obtain ⟨x, d, hx, hd, hrat⟩ :=
        exists_toRat_of_scaled?_whole n.negative (show k ≤ 22 by omega) hlimit
      refine ⟨.float x, d, ?_, hd, ?_⟩
      · rw [numeric?_of_fits hinteger hsize hpower, hk, hx]
      · rw [hrat, toRat, size_eq, hk, zpow_natCast]
        push_cast
        rfl
  | short hpower hfraction hplaces hlimit hsafe =>
      obtain ⟨k, hk⟩ := Int.exists_eq_neg_ofNat hfraction
      have hsize : n.significand < UInt64.size := Nat.lt_trans hlimit (by decide)
      rw [hk, Int.natAbs_neg, Int.natAbs_natCast] at hsafe
      obtain ⟨x, d, hx, hd, hrat⟩ :=
        exists_toRat_of_scaled? n.negative (show k ≤ 22 by omega) hlimit hsafe
      refine ⟨.float x, d, ?_, hd, ?_⟩
      · rw [numeric?_of_fits hinteger hsize hpower, hk, hx]
      · rw [hrat, toRat, size_eq, hk, zpow_neg, zpow_natCast, div_eq_mul_inv]

end Criteria.Payload

/-! ## Texts of numbers -/

namespace Criteria.Number.Decimal

open Payload

/-- A digit that fits is read as it is. -/
theorem readParts?_digit {d : Char} (hd : d.isDigit = true) (rest : List Char) (point : Bool)
    {coefficient scale : Nat} (seen : Bool)
    (hlimit : coefficient * 10 + (d.toNat - '0'.toNat) < Nat.pow 2 96)
    (hscale : point = true → scale < 28) :
    readParts? coefficient scale point seen (d :: rest) =
      readParts? (coefficient * 10 + (d.toNat - '0'.toNat)) (if point then scale + 1 else scale)
        point true rest := by
  have hroom : (point && scale == maxScale) = false := by
    cases point with
    | false => rfl
    | true =>
        have hne : scale ≠ maxScale := (hscale rfl).ne
        simpa using hne
  rw [readParts?, if_pos hd]
  simp only [hroom, Bool.false_eq_true, if_false]
  rw [if_pos hlimit]

/-- Digits that fit are read as they are. -/
theorem readParts?_digits {ds : List Char} (hds : ∀ c ∈ ds, c.isDigit = true) (rest : List Char)
    (point : Bool) {coefficient scale : Nat} {seen : Bool} (hseen : seen = true ∨ ds ≠ [])
    (hlimit : Nat.ofDigitChars 10 ds coefficient < Nat.pow 2 96)
    (hscale : point = true → scale + ds.length ≤ 28) :
    readParts? coefficient scale point seen (ds ++ rest) =
      readParts? (Nat.ofDigitChars 10 ds coefficient)
        (if point then scale + ds.length else scale) point true rest := by
  induction ds generalizing coefficient scale seen with
  | nil =>
      obtain rfl := hseen.resolve_right fun h => h rfl
      cases point <;> rfl
  | cons d ds ih =>
      have hnext : Nat.ofDigitChars 10 (d :: ds) coefficient =
          Nat.ofDigitChars 10 ds (coefficient * 10 + (d.toNat - '0'.toNat)) := by
        rw [Nat.ofDigitChars_cons, Nat.mul_comm]
      rw [hnext] at hlimit ⊢
      rw [List.length_cons] at hscale ⊢
      have hle := le_ofDigitChars ds (coefficient * 10 + (d.toNat - '0'.toNat))
      rw [List.cons_append, readParts?_digit (hds d List.mem_cons_self) _ point seen
          (Nat.lt_of_le_of_lt hle hlimit) (fun hpoint => by have := hscale hpoint; omega),
        ih (fun c hc => hds c (List.mem_cons_of_mem d hc)) (Or.inl rfl) hlimit]
      · cases point with
        | false => rfl
        | true =>
            simp only [if_true]
            congr 1
            omega
      · intro hpoint
        have hlength := hscale hpoint
        rw [if_pos hpoint]
        omega

/-- The digits of a plain number that fits. -/
theorem readParts?_body {n : Numeral} (hpower : n.power = none)
    (hlimit : n.significand < Nat.pow 2 96) (hscale : n.decimals.length ≤ 28) :
    readParts? 0 0 false false n.body = some (n.significand, n.decimals.length) := by
  have hvalue : n.significand =
      Nat.ofDigitChars 10 n.decimals (Nat.ofDigitChars 10 n.whole.chars 0) := by
    rw [Numeral.significand, digitsValue, Nat.ofDigitChars_append]
  rw [hvalue] at hlimit ⊢
  have hle := le_ofDigitChars n.decimals (Nat.ofDigitChars 10 n.whole.chars 0)
  rw [Numeral.body, hpower,
    readParts?_digits n.whole.isDigit _ false (Or.inr n.whole.ne_nil)
      (Nat.lt_of_le_of_lt hle hlimit) (fun h => by cases h)]
  cases hfraction : n.fraction with
  | none => simp [Numeral.decimals, hfraction, Digits.fractionChars, Power.chars, readParts?]
  | some f =>
      have hdecimals : n.decimals = f.chars := by simp [Numeral.decimals, hfraction]
      rw [hdecimals] at hlimit hscale ⊢
      have hpoint : ('.').isDigit = false := rfl
      rw [Digits.fractionChars, Power.chars, List.append_nil, readParts?, hpoint,
        if_neg (by decide), if_pos ⟨rfl, rfl⟩, ← List.append_nil f.chars,
        readParts?_digits f.isDigit [] true (Or.inl rfl) hlimit (fun _ => by simpa using hscale)]
      simp [readParts?]

theorem takeSign_chars (n : Numeral) : takeSign n.chars = (n.negative, n.body) := by
  have hhead : ∀ c ∈ n.body.head?, c ≠ '+' ∧ c ≠ '-' := by
    intro c hc
    obtain ⟨d, ds, hcons⟩ := List.exists_cons_of_ne_nil n.whole.ne_nil
    rw [Numeral.body, hcons, List.cons_append, List.head?_cons] at hc
    obtain rfl := Option.some.inj hc
    exact ne_sign_of_isDigit (n.whole.isDigit d (by simp [hcons]))
  rw [Numeral.chars]
  cases n.negative with
  | true => rfl
  | false => exact takeSign_append (Or.inl rfl) hhead

/-- **Plain texts.** The text of a number without a power of ten, whose digits fit a decimal, is
read as that number. -/
theorem exists_read?_chars {n : Numeral} (hpower : n.power = none)
    (hlimit : n.significand < Nat.pow 2 96) (hscale : n.decimals.length ≤ 28) :
    ∃ d, read? n.chars = some d ∧ d.toRat = n.toRat := by
  have hsize : n.size = n.significand / 10 ^ n.decimals.length := by
    rw [Numeral.size_eq, Numeral.exponent, hpower, Power.exponent, zero_sub, zpow_neg,
      zpow_natCast, div_eq_mul_inv]
  refine ⟨⟨n.negative && n.significand != 0, n.significand, n.decimals.length, hlimit, hscale⟩,
    ?_, ?_⟩
  · rw [read?, readPlain?, takeSign_chars]
    dsimp only
    rw [readParts?_body hpower hlimit hscale, Option.bind_some, ofUnsignedZero?, ofParts?,
      dif_pos ⟨hlimit, hscale⟩, Option.some_or]
  · rw [toRat_eq, Numeral.toRat, hsize]
    by_cases hzero : n.significand = 0
    · simp [hzero, withSign]
    · have hsigned : (n.significand != 0) = true := by simpa using hzero
      rw [hsigned, Bool.and_true]

end Criteria.Number.Decimal
