import Criteria.Proofs.Payload.Scaling
import Criteria.Proofs.Payload.Writing

set_option autoImplicit false

/-! # Written doubles

A double is written with a point or a power of ten, so it is never read as an integer, and with at
most eighteen digits, which all fit the reader's significand. So the reader scales those digits by
their power of ten (`Numeral.numeric?_of_fits`), and what it comes to is near the double that was
written (`exists_numeral`). -/

namespace Criteria.Payload

open Number Binary64

/-! ## Numbers whose digits fit -/

/-- All digits of a number as one. -/
def Numeral.significand (n : Numeral) : Nat := digitsValue (n.whole.chars ++ n.decimals)

/-- The power of ten at the last digit of a number. -/
def Numeral.exponent (n : Numeral) : Int := Power.exponent n.power - n.decimals.length

theorem takeFitting_of_lt {ds : List Char} (hds : ∀ c ∈ ds, c.isDigit = true) {n : Nat}
    (h : Nat.ofDigitChars 10 ds n < UInt64.size) :
    takeFitting n ds = (Nat.ofDigitChars 10 ds n, []) := by
  induction ds generalizing n with
  | nil => rfl
  | cons d ds ih =>
      rw [Nat.ofDigitChars_cons, Nat.mul_comm] at h ⊢
      have hnext := le_ofDigitChars ds (n * 10 + (d.toNat - '0'.toNat))
      rw [takeFitting, if_pos (hds d (by simp))]
      dsimp only
      rw [if_pos (by omega), ih (fun c hc => hds c (List.mem_cons_of_mem d hc)) h]

/-- A number that is no integer is scaled once, if all its digits fit. -/
theorem Numeral.numeric?_of_fits {n : Numeral} (hinteger : ¬ n.IsInteger)
    (hfits : n.significand < UInt64.size) (hpower : (Power.exponent n.power).natAbs < 2147483648) :
    n.numeric? = scaled? n.negative n.significand n.exponent := by
  have hvalue : n.significand =
      Nat.ofDigitChars 10 n.decimals (Nat.ofDigitChars 10 n.whole.chars 0) := by
    rw [significand, digitsValue, Nat.ofDigitChars_append]
  rw [hvalue] at hfits
  have hle := le_ofDigitChars n.decimals (Nat.ofDigitChars 10 n.whole.chars 0)
  rw [numeric?_of_not_isInteger hinteger,
    takeFitting_of_lt n.whole.isDigit (Nat.lt_of_le_of_lt hle hfits)]
  dsimp only
  rw [takeFitting_of_lt n.isDigit_decimals hfits, ← hvalue, exponent]
  simp only [List.length_nil, Nat.cast_zero, Nat.sub_zero, zero_sub]
  cases hp : n.power with
  | none => simp [powered?, Power.exponent]
  | some p =>
      rw [hp] at hpower
      rw [powered?, scaledBy?]
      by_cases hdown : p.sign = ['-']
      · simp only [Power.exponent, hdown, if_true, Int.natAbs_neg, Int.natAbs_natCast] at hpower ⊢
        rw [if_pos hpower]
        simp only [beq_self_eq_true, if_true]
        congr 1
        omega
      · have hbeq : (p.sign == ['-']) = false := by simpa using hdown
        simp only [Power.exponent, hdown, if_false, Int.natAbs_natCast] at hpower ⊢
        rw [if_pos hpower, hbeq]
        simp only [Bool.false_eq_true, if_false]
        congr 1
        omega

/-! ## Zeros -/

theorem digitsValue_append (ds fs : List Char) :
    digitsValue (ds ++ fs) = digitsValue ds * 10 ^ fs.length + digitsValue fs := by
  rw [digitsValue, digitsValue, digitsValue, Nat.ofDigitChars_append,
    Nat.ofDigitChars_eq_ofDigitChars_zero, Nat.mul_comm]

theorem digitsValue_zeros (k : Nat) : digitsValue (List.replicate k '0') = 0 := by
  induction k with
  | zero => rfl
  | succ k ih =>
      rw [List.replicate_succ, ← List.singleton_append, digitsValue_append, ih]
      have hzero : digitsValue ['0'] = 0 := by decide
      rw [hzero, Nat.zero_mul]

/-- Zeros in front of digits do not count. -/
theorem digitsValue_zeros_append (k : Nat) (ds : List Char) :
    digitsValue (List.replicate k '0' ++ ds) = digitsValue ds := by
  rw [digitsValue_append, digitsValue_zeros, Nat.zero_mul, Nat.zero_add]

/-- Zeros behind digits are factors of ten. -/
theorem digitsValue_append_zeros (ds : List Char) (k : Nat) :
    digitsValue (ds ++ List.replicate k '0') = digitsValue ds * 10 ^ k := by
  rw [digitsValue_append, digitsValue_zeros, List.length_replicate, Nat.add_zero]

/-! ## Powers of ten -/

theorem e_is_mark : 'e' = 'e' ∨ 'e' = 'E' := Or.inl rfl

/-- A power of ten as it is written, with its sign. -/
def Power.ofInt (i : Int) : Power where
  mark := 'e'
  mark_eq := e_is_mark
  sign := if i < 0 then ['-'] else ['+']
  sign_eq := by
    by_cases h : i < 0
    · simp [h]
    · simp [h]
  digits := .ofNat i.natAbs

theorem Power.chars_ofInt (i : Int) :
    Power.chars (some (.ofInt i)) = 'e' :: (if i < 0 then [] else ['+']) ++ intDigits i := by
  by_cases h : i < 0
  · simp [Power.chars, Power.ofInt, Digits.ofNat, intDigits, h]
  · simp [Power.chars, Power.ofInt, Digits.ofNat, intDigits, h]

theorem Power.exponent_ofInt (i : Int) : Power.exponent (some (.ofInt i)) = i := by
  have hdigits : Nat.ofDigitChars 10 (Power.ofInt i).digits.chars 0 = i.natAbs :=
    digitsValue_natDigits i.natAbs
  have hsign : (Power.ofInt i).sign = ['-'] ↔ i < 0 := by
    rw [ofInt]
    by_cases h : i < 0
    · simp [h]
    · simp [h]
  rw [Power.exponent, hdigits]
  by_cases h : i < 0
  · rw [if_pos (hsign.2 h)]
    omega
  · rw [if_neg (mt hsign.1 h)]
    omega

/-! ## The text of a double -/

/-- A number that is written, without its sign, as the given digits and power of ten: with a point
or a power, so that it is no integer. -/
structure Numeral.Writes (n : Numeral) (cs : List Char) (significand : Nat) (exponent : Int) :
    Prop where
  body : n.body = cs
  notInteger : ¬ n.IsInteger
  significand : n.significand = significand
  exponent : n.exponent = exponent
  power : (Power.exponent n.power).natAbs < 2147483648

section

variable {digits : Nat} {exponent point : Int}

theorem natDigits_ne_nil (n : Nat) : natDigits n ≠ [] := (Digits.ofNat n).ne_nil

theorem isDigit_natDigits {n : Nat} {c : Char} (h : c ∈ natDigits n) : c.isDigit = true :=
  (Digits.ofNat n).isDigit c h

theorem isDigit_zeros {k : Nat} {c : Char} (h : c ∈ List.replicate k '0') : c.isDigit = true := by
  rw [List.eq_of_mem_replicate h]
  rfl

theorem chars_ofNat_zero : (Digits.ofNat 0).chars = ['0'] := rfl

/-- Zeros, and the digits of a number behind them. -/
def Digits.behindZeros (k n : Nat) : Digits where
  chars := List.replicate k '0' ++ natDigits n
  ne_nil := by simp [natDigits_ne_nil]
  isDigit := fun _ hc => (List.mem_append.1 hc).elim isDigit_zeros isDigit_natDigits

/-- The digits of a number, and zeros behind them. -/
def Digits.withZeros (k n : Nat) : Digits where
  chars := natDigits n ++ List.replicate k '0'
  ne_nil := by simp [natDigits_ne_nil]
  isDigit := fun _ hc => (List.mem_append.1 hc).elim isDigit_natDigits isDigit_zeros

/-- The first digits of a number. -/
def Digits.first (n : Nat) {k : Nat} (h : 0 < k) : Digits where
  chars := (natDigits n).take k
  ne_nil := by simp [natDigits_ne_nil, Nat.ne_of_gt h]
  isDigit := fun _ hc => isDigit_natDigits (List.mem_of_mem_take hc)

/-- All but the first digits of a number. -/
def Digits.others {n k : Nat} (h : k < (natDigits n).length) : Digits where
  chars := (natDigits n).drop k
  ne_nil := by simpa using h
  isDigit := fun _ hc => isDigit_natDigits (List.mem_of_mem_drop hc)

theorem head?_first (hpos : 0 < digits) {k : Nat} (h : 0 < k) :
    (Digits.first digits h).chars.head? ≠ some '0' := by
  rw [Digits.first, List.head?_take, if_neg (Nat.ne_of_gt h)]
  exact head?_natDigits (Nat.ne_of_gt hpos)

/-- A number below one, with all its digits behind the point. -/
theorem exists_writes_below (hpoint : point = exponent + (natDigits digits).length)
    (hbelow : point ≤ 0) :
    ∃ n : Numeral, n.Writes (Layout.json.positionally (natDigits digits) point) digits
      exponent := by
  let n : Numeral :=
    { negative := false
      whole := .ofNat 0
      noLeadingZero := noLeadingZero_natDigits 0
      fraction := some (.behindZeros (-point).toNat digits)
      power := none }
  refine ⟨n, ?_, ?_, ?_, ?_, ?_⟩
  · rw [Layout.positionally, if_pos hbelow]
    simp [n, Numeral.body, Digits.fractionChars, Digits.behindZeros, Power.chars, chars_ofNat_zero]
  · rintro ⟨h, -⟩
    cases h
  · show digitsValue ('0' :: List.replicate _ '0' ++ natDigits digits) = digits
    rw [← List.replicate_succ, digitsValue_zeros_append, digitsValue_natDigits]
  · show (0 : Int) - ((List.replicate (-point).toNat '0' ++ natDigits digits).length : Nat) = _
    rw [List.length_append, List.length_replicate]
    omega
  · simp [n, Power.exponent]

/-- A whole number, with a zero behind the point. -/
theorem exists_writes_whole (hpos : 0 < digits)
    (hpoint : point = exponent + (natDigits digits).length) (hwhole : 0 ≤ exponent) :
    ∃ n : Numeral, n.Writes (Layout.json.positionally (natDigits digits) point)
      (digits * 10 ^ (exponent.toNat + 1)) (-1) := by
  have hlength := List.length_pos_of_ne_nil (natDigits_ne_nil digits)
  let n : Numeral :=
    { negative := false
      whole := .withZeros exponent.toNat digits
      noLeadingZero := by
        right
        rw [Digits.withZeros, List.head?_append_of_ne_nil _ (natDigits_ne_nil digits)]
        exact head?_natDigits (Nat.ne_of_gt hpos)
      fraction := some (.ofNat 0)
      power := none }
  refine ⟨n, ?_, ?_, ?_, ?_, ?_⟩
  · rw [Layout.positionally, if_neg (by omega), if_pos (by omega),
      show point.toNat - (natDigits digits).length = exponent.toNat by omega]
    simp [n, Numeral.body, Digits.fractionChars, Digits.withZeros, Power.chars, Layout.json,
      chars_ofNat_zero]
  · rintro ⟨h, -⟩
    cases h
  · show digitsValue (natDigits digits ++ List.replicate exponent.toNat '0' ++ ['0']) = _
    rw [List.append_assoc, ← List.replicate_succ', digitsValue_append_zeros, digitsValue_natDigits]
  · rfl
  · simp [n, Power.exponent]

/-- A number with its point between two digits. -/
theorem exists_writes_between (hpos : 0 < digits)
    (hpoint : point = exponent + (natDigits digits).length) (habove : 0 < point)
    (hbroken : exponent < 0) :
    ∃ n : Numeral, n.Writes (Layout.json.positionally (natDigits digits) point) digits
      exponent := by
  have hfirst : 0 < point.toNat := by omega
  have hothers : point.toNat < (natDigits digits).length := by omega
  let n : Numeral :=
    { negative := false
      whole := .first digits hfirst
      noLeadingZero := Or.inr (head?_first hpos hfirst)
      fraction := some (.others hothers)
      power := none }
  refine ⟨n, ?_, ?_, ?_, ?_, ?_⟩
  · rw [Layout.positionally, if_neg (by omega), if_neg (by omega)]
    simp [n, Numeral.body, Digits.fractionChars, Digits.first, Digits.others, Power.chars]
  · rintro ⟨h, -⟩
    cases h
  · show digitsValue ((natDigits digits).take _ ++ (natDigits digits).drop _) = digits
    rw [List.take_append_drop, digitsValue_natDigits]
  · show (0 : Int) - (((natDigits digits).drop point.toNat).length : Nat) = _
    rw [List.length_drop]
    omega
  · simp [n, Power.exponent]

/-- A number with a power of ten behind its first digit or its fraction. -/
theorem exists_writes_power (hpos : 0 < digits)
    (hpoint : point = exponent + (natDigits digits).length) (hpower : point.natAbs < 1000) :
    ∃ n : Numeral, n.Writes (Layout.json.withExponent (natDigits digits) point) digits
      exponent := by
  have hlength := List.length_pos_of_ne_nil (natDigits_ne_nil digits)
  have hchars := Power.chars_ofInt (point - 1)
  by_cases hone : (natDigits digits).length ≤ 1
  · let n : Numeral :=
      { negative := false
        whole := .first digits Nat.one_pos
        noLeadingZero := Or.inr (head?_first hpos Nat.one_pos)
        fraction := none
        power := some (.ofInt (point - 1)) }
    refine ⟨n, ?_, ?_, ?_, ?_, ?_⟩
    · rw [Layout.withExponent, Numeral.body, hchars, if_pos hone]
      simp [n, Digits.fractionChars, Digits.first, Layout.json]
    · rintro ⟨-, h⟩
      cases h
    · show digitsValue ((natDigits digits).take 1 ++ []) = digits
      rw [List.append_nil, List.take_of_length_le hone, digitsValue_natDigits]
    · rw [Numeral.exponent, Power.exponent_ofInt]
      show point - 1 - 0 = exponent
      omega
    · rw [Power.exponent_ofInt]
      omega
  · let n : Numeral :=
      { negative := false
        whole := .first digits Nat.one_pos
        noLeadingZero := Or.inr (head?_first hpos Nat.one_pos)
        fraction := some (.others (Nat.not_le.1 hone))
        power := some (.ofInt (point - 1)) }
    refine ⟨n, ?_, ?_, ?_, ?_, ?_⟩
    · rw [Layout.withExponent, Numeral.body, hchars, if_neg hone]
      simp [n, Digits.fractionChars, Digits.first, Digits.others, Layout.json]
    · rintro ⟨-, h⟩
      cases h
    · show digitsValue ((natDigits digits).take 1 ++ (natDigits digits).drop 1) = digits
      rw [List.take_append_drop, digitsValue_natDigits]
    · rw [Numeral.exponent, Power.exponent_ofInt]
      show point - 1 - (((natDigits digits).drop 1).length : Nat) = exponent
      rw [List.length_drop]
      omega
    · rw [Power.exponent_ofInt]
      omega

end

/-! ## The number of a double -/

/-- A number without its sign stands in the interval of a double, and the reader loses none of its
digits. -/
structure Numeral.Denotes (n : Numeral) (m s : Nat) : Prop where
  notInteger : ¬ n.IsInteger
  pos : 0 < n.significand
  le : n.significand ≤ 10 ^ 17
  least : -324 ≤ n.exponent
  power : (Power.exponent n.power).natAbs < 2147483648
  covers : Covers m s (decimalUnits n.significand n.exponent)

section

variable {n : Numeral} {m s digits : Nat} {exponent : Int}

theorem Numeral.Writes.denotes {cs : List Char} (h : n.Writes cs digits exponent)
    (hpos : 0 < digits) (hle : digits ≤ 10 ^ 17) (hleast : -324 ≤ exponent)
    (hcovers : Covers m s (decimalUnits digits exponent)) : n.Denotes m s where
  notInteger := h.notInteger
  pos := h.significand ▸ hpos
  le := h.significand ▸ hle
  least := h.exponent ▸ hleast
  power := h.power
  covers := by rwa [h.significand, h.exponent]

/-- Ten times as many, one place further down. -/
theorem decimalUnits_whole (hwhole : 0 ≤ exponent) :
    decimalUnits (digits * 10 ^ (exponent.toNat + 1)) (-1) = decimalUnits digits exponent := by
  obtain ⟨k, rfl⟩ := Int.eq_ofNat_of_zero_le hwhole
  rw [Int.toNat_natCast, decimalUnits, decimalUnits, zpow_natCast, zpow_neg_one, pow_succ]
  generalize (unitsPerOne : ℚ) = one
  push_cast
  field_simp

theorem whole_le {point : Int} (hpoint : point = exponent + (natDigits digits).length)
    (hwhole : 0 ≤ exponent) (hmost : point ≤ 16) :
    digits * 10 ^ (exponent.toNat + 1) ≤ 10 ^ 17 := by
  calc digits * 10 ^ (exponent.toNat + 1)
      ≤ 10 ^ (natDigits digits).length * 10 ^ (exponent.toNat + 1) :=
        Nat.mul_le_mul_right _ (Nat.le_of_lt (lt_pow_length digits))
    _ = 10 ^ ((natDigits digits).length + (exponent.toNat + 1)) := (Nat.pow_add _ _ _).symm
    _ ≤ 10 ^ 17 := Nat.pow_le_pow_right (by decide) (by omega)

/-- A double but zero is written as a number in its interval. -/
theorem exists_denotes (negative : Bool) (hc : Canonical m s) (hm : 0 < m) :
    ∃ n : Numeral, n.chars = Layout.json.write (.finite negative m s hc) ∧
      n.negative = negative ∧ n.Denotes m s := by
  obtain ⟨digits, exponent, hshortest, hpos, hle, hleast, hcovers⟩ :=
    shortest_spec .even hm (show m < 2 ^ 53 from hc.1)
  have hmost := exponent_le_maxPower hc hpos hcovers
  have hmax : maxPower = 308 := rfl
  have hlength : (natDigits digits).length ≤ 18 :=
    (Nat.length_toDigits_le_iff (by decide) (by decide)).2 (by omega)
  -- without the sign
  have hbody : ∃ n : Numeral, n.body = (if -4 ≤ exponent + (natDigits digits).length ∧
        exponent + (natDigits digits).length ≤ 16 then
          Layout.json.positionally (natDigits digits) (exponent + (natDigits digits).length)
        else Layout.json.withExponent (natDigits digits) (exponent + (natDigits digits).length)) ∧
      n.Denotes m s := by
    split
    · next hpositional =>
        rcases Int.lt_or_le exponent 0 with hbroken | hwhole
        · rcases Int.lt_or_le 0 (exponent + (natDigits digits).length) with habove | hbelow
          · obtain ⟨n, hn⟩ := exists_writes_between hpos rfl habove hbroken
            exact ⟨n, hn.body, hn.denotes hpos hle hleast hcovers⟩
          · obtain ⟨n, hn⟩ := exists_writes_below rfl hbelow
            exact ⟨n, hn.body, hn.denotes hpos hle hleast hcovers⟩
        · obtain ⟨n, hn⟩ := exists_writes_whole hpos rfl hwhole
          refine ⟨n, hn.body, hn.denotes (Nat.mul_pos hpos (Nat.pow_pos (by decide)))
            (whole_le rfl hwhole hpositional.2) (by decide) ?_⟩
          rwa [decimalUnits_whole hwhole]
    · have hpower : (exponent + (natDigits digits).length).natAbs < 1000 := by omega
      obtain ⟨n, hn⟩ := exists_writes_power hpos rfl hpower
      exact ⟨n, hn.body, hn.denotes hpos hle hleast hcovers⟩
  obtain ⟨n, hn, hdenotes⟩ := hbody
  refine ⟨{ n with negative := negative }, ?_, rfl, ?_⟩
  · have hwrite : Layout.json.write (.finite negative m s hc) =
        (if negative then ['-'] else []) ++ n.body := by
      rw [Layout.write, if_neg (Nat.ne_of_gt hm), hn, show Layout.json.tie = .even from rfl,
        hshortest]
      simp [Layout.json]
    rw [hwrite]
    cases negative with
    | true => rfl
    | false => rfl
  · obtain ⟨hnotInteger, hpos, hle, hleast, hpower, hcovers⟩ := hdenotes
    exact ⟨hnotInteger, hpos, hle, hleast, hpower, hcovers⟩

end

/-! ## Reading the number of a double -/

section

variable {n : Numeral} {m s : Nat}

theorem Numeral.Denotes.significand_lt (h : n.Denotes m s) : n.significand < UInt64.size :=
  Nat.lt_of_le_of_lt h.le (by decide)

/-- A number with a negative power of ten is far below the largest doubles. -/
theorem Numeral.Denotes.units_lt (h : n.Denotes m s) (hbelow : n.exponent < 0) :
    decimalUnits n.significand n.exponent < 2 ^ 2045 := by
  obtain ⟨k, hk⟩ := Int.exists_eq_neg_ofNat (Int.le_of_lt hbelow)
  have hone := cast_unitsPerOne_pos
  have hlimit : 10 ^ 17 * unitsPerOne < 2 ^ 2045 := by decide +kernel
  have hunits : n.significand * unitsPerOne < 2 ^ 2045 :=
    Nat.lt_of_le_of_lt (Nat.mul_le_mul_right _ h.le) hlimit
  have hcast := (Nat.cast_lt (α := ℚ)).2 hunits
  rw [Nat.cast_mul, Nat.cast_pow, Nat.cast_ofNat] at hcast
  rw [hk, decimalUnits_neg]
  refine lt_of_le_of_lt (div_le_self (mul_nonneg (Nat.cast_nonneg _) hone.le) ?_) hcast
  exact one_le_pow₀ (by norm_num)

/-- A quotient is finite: it is a few steps from a double that is not among the largest. -/
theorem Numeral.Denotes.scaledTo_lt (h : n.Denotes m s) (hc : Canonical m s)
    (hbelow : n.exponent < 0) : scaledTo n.significand n.exponent < unitsLimit := by
  obtain ⟨hm, hs, hnormal⟩ := hc
  simp only [Nat.pow_eq] at hm hnormal
  have hstep : (0 : ℚ) < 2 ^ s := by positivity
  have hlast : s ≤ 2044 := by
    by_contra hlarge
    obtain rfl : s = 2045 := by omega
    have hnear := (abs_le.1 h.covers.abs_sub_le).1
    have hunits := h.units_lt hbelow
    have hmantissa : (2 : ℚ) ≤ m := by
      have htwo : 2 ≤ m := by omega
      exact_mod_cast htwo
    generalize (2 : ℚ) ^ 2045 = step at *
    have hmul := mul_le_mul_of_nonneg_right hmantissa hstep.le
    linarith
  have herror := (abs_lt.1 (abs_scaledTo_sub_lt hm h.least h.covers)).2
  have hcast : (scaledTo n.significand n.exponent : ℚ) < ((m + 4) * 2 ^ s : Nat) := by
    push_cast
    linarith
  calc scaledTo n.significand n.exponent < (m + 4) * 2 ^ s := Nat.cast_lt.1 hcast
    _ ≤ (m / 2 + 3) * 2 * 2 ^ s := Nat.mul_le_mul_right _ (by omega)
    _ = (m / 2 + 3) * 2 ^ (s + 1) := by rw [Nat.mul_assoc, ← Nat.pow_succ']
    _ < unitsLimit := mul_pow_lt_unitsLimit (by omega) (Nat.succ_le_succ hlast) rfl

/-- The number of a double but the largest is read as a double again. -/
theorem Numeral.Denotes.exists_double (h : n.Denotes m s) (hc : Canonical m s)
    (hne : ¬ (m = 2 ^ 53 - 1 ∧ s = 2045)) :
    ∃ m' s' hc', n.double? = some (.finite n.negative m' s' hc') ∧
      m' * 2 ^ s' = scaledTo n.significand n.exponent := by
  have hrange : ∀ k : Nat, n.exponent = k → n.significand * 10 ^ k < rangeLimit := by
    intro k hk
    have hcovers := h.covers
    rw [hk] at hcovers
    exact mul_pow_lt_rangeLimit hc hne hcovers
  obtain ⟨x, hx⟩ := scaled?_of_lt n.negative h.significand_lt hrange
  have hmost := exponent_le_maxPower hc h.pos h.covers
  have hlimit : scaledTo n.significand n.exponent < unitsLimit := by
    rcases Int.lt_or_le n.exponent 0 with hbelow | hwhole
    · exact h.scaledTo_lt hc hbelow
    · -- an infinite product would have been refused
      obtain ⟨k, hk⟩ := Int.eq_ofNat_of_zero_le hwhole
      rw [hk] at hx hmost ⊢
      rw [scaled?_of_le_maxPower n.negative h.significand_lt (Int.ofNat_le.1 hmost)] at hx
      by_contra hinfinite
      rw [scaledTo, if_pos (Int.natCast_nonneg k), Int.natAbs_natCast] at hinfinite
      rw [if_neg hinfinite] at hx
      cases hx
  obtain ⟨y, hy, rfl⟩ := Option.map_eq_some_iff.1 hx
  have hunits := hasUnits_of_scaleByTen? h.significand_lt (fun _ => h.pos) h.least hmost hy
  obtain ⟨m', s', hc', rfl, hvalue⟩ := hunits.exists_finite hlimit
  refine ⟨m', s', hc', ?_, hvalue⟩
  rw [double?, numeric?_of_fits h.notInteger h.significand_lt h.power, hx]
  cases n.negative with
  | true => rfl
  | false => rfl

end

end Criteria.Payload
