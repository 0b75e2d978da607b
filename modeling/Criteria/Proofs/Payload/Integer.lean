import Criteria.Coercion
import Criteria.Proofs.Number.DoubleWord
import Criteria.Proofs.Payload.Document

set_option autoImplicit false

/-! # Integers of a payload

An integer is written with any number of digits. The first of them that fit 64 bits are its
significand; each digit behind them counts as a power of ten, in one product of doubles. So an
integer of more than 64 bits is known by a double near it, and by nothing if it is past the largest
double (`integer?_eq_none_iff`).

As a word it comes to itself, if it fits, and to none otherwise, but for the 1024 integers next to
the least word: their double is the one of the least word (`toWord?_of_integer?`). -/

namespace Criteria.Payload

open Number Binary64

/-! ## Digits that fit -/

theorem digit_le {c : Char} (h : c.isDigit = true) : c.toNat - '0'.toNat ≤ 9 := by
  simp only [Char.isDigit, ge_iff_le, Bool.and_eq_true, decide_eq_true_eq, UInt32.le_iff_toNat_le]
    at h
  have hle : c.toNat ≤ 57 := h.2
  have hzero : '0'.toNat = 48 := rfl
  omega

theorem ofDigitChars_lt {ds : List Char} (hds : ∀ c ∈ ds, c.isDigit = true) :
    Nat.ofDigitChars 10 ds 0 < 10 ^ ds.length := by
  induction ds with
  | nil => simp
  | cons d ds ih =>
      have hd := digit_le (hds d (by simp))
      have hrest := ih fun c hc => hds c (List.mem_cons_of_mem d hc)
      rw [Nat.ofDigitChars_cons, Nat.mul_zero, Nat.zero_add, Nat.ofDigitChars_eq_ofDigitChars_zero,
        List.length_cons, Nat.pow_succ]
      have hmul := Nat.mul_le_mul_left (10 ^ ds.length) hd
      omega

theorem takeFitting_lt {significand : Nat} (ds : List Char) (h : significand < UInt64.size) :
    (takeFitting significand ds).1 < UInt64.size := by
  induction ds generalizing significand with
  | nil => exact h
  | cons d ds ih =>
      rw [takeFitting]
      split
      · dsimp only
        split
        · next hnext => exact ih hnext
        · exact h
      · exact h

/-- No digit is lost. -/
theorem ofDigitChars_takeFitting {ds : List Char} (hds : ∀ c ∈ ds, c.isDigit = true)
    (significand : Nat) :
    Nat.ofDigitChars 10 (takeFitting significand ds).2 (takeFitting significand ds).1 =
      Nat.ofDigitChars 10 ds significand := by
  induction ds generalizing significand with
  | nil => rfl
  | cons d ds ih =>
      rw [takeFitting, if_pos (hds d (by simp))]
      dsimp only
      split
      · rw [ih (fun c hc => hds c (List.mem_cons_of_mem d hc)), Nat.ofDigitChars_cons,
          Nat.mul_comm]
      · rfl

/-- Digits are left only where the next one does not fit. -/
theorem size_le_of_takeFitting {ds : List Char} (hds : ∀ c ∈ ds, c.isDigit = true)
    {significand : Nat} {d : Char} {rest : List Char}
    (h : (takeFitting significand ds).2 = d :: rest) :
    UInt64.size ≤ (takeFitting significand ds).1 * 10 + (d.toNat - '0'.toNat) := by
  induction ds generalizing significand with
  | nil => cases h
  | cons c ds ih =>
      rw [takeFitting, if_pos (hds c (by simp))] at h ⊢
      dsimp only at h ⊢
      split at h
      · next hnext =>
          rw [if_pos hnext]
          exact ih (fun c hc => hds c (List.mem_cons_of_mem _ hc)) h
      · next hnext =>
          rw [if_neg hnext]
          cases h
          exact Nat.not_lt.1 hnext

theorem full_of_takeFitting {ds : List Char} (hds : ∀ c ∈ ds, c.isDigit = true)
    {significand : Nat} (h : (takeFitting significand ds).2 ≠ []) :
    UInt64.size ≤ (takeFitting significand ds).1 * 10 + 9 := by
  obtain ⟨d, rest, hleft⟩ := List.exists_cons_of_ne_nil h
  have hd := digit_le (isDigit_of_mem_takeFitting significand hds d (by simp [hleft]))
  have hsize := size_le_of_takeFitting hds hleft
  omega

/-- Where digits are left, the digits up to the first of them do not fit. -/
theorem size_mul_pow_le_of_takeFitting {ds : List Char} (hds : ∀ c ∈ ds, c.isDigit = true)
    {significand : Nat} {d : Char} {rest : List Char}
    (h : (takeFitting significand ds).2 = d :: rest) :
    UInt64.size * 10 ^ rest.length ≤ Nat.ofDigitChars 10 ds significand := by
  rw [← ofDigitChars_takeFitting hds significand, h, Nat.ofDigitChars_cons,
    Nat.ofDigitChars_eq_ofDigitChars_zero, Nat.mul_comm, Nat.mul_comm 10]
  exact Nat.le_trans (Nat.mul_le_mul_left _ (size_le_of_takeFitting hds h))
    (Nat.le_add_right _ _)

/-! ## Digits that do not fit -/

/-- The number of units of a significand times a power of ten. -/
def scaledUnits (significand power : Nat) : Nat :=
  roundedUnits (unitsOf significand * unitsOf (Nat.pow 10 power)) unitsPerOne

theorem pow_ten_mono {j k : Nat} (h : j ≤ k) : Nat.pow 10 j ≤ Nat.pow 10 k :=
  Nat.pow_le_pow_right (by decide) h

theorem pow_ten_succ (k : Nat) : Nat.pow 10 (k + 1) = Nat.pow 10 k * 10 := rfl

theorem scaledUnits_mono {m n j k : Nat} (hm : m ≤ n) (hj : j ≤ k) :
    scaledUnits m j ≤ scaledUnits n k :=
  roundedUnits_mono unitsPerOne_pos
    (Nat.mul_le_mul (unitsOf_mono hm) (unitsOf_mono (pow_ten_mono hj)))

variable (negative : Bool) {significand power : Nat}

theorem unitsOf_significand_lt (h : significand < UInt64.size) :
    unitsOf significand < unitsLimit := by
  have hsize : unitsOf UInt64.size < unitsLimit := by decide +kernel
  exact Nat.lt_of_le_of_lt (unitsOf_mono (Nat.le_of_lt h)) hsize

theorem unitsOf_pow_lt (h : power ≤ maxPower) : unitsOf (Nat.pow 10 power) < unitsLimit := by
  have hmax : unitsOf (Nat.pow 10 maxPower) < unitsLimit := by decide +kernel
  exact Nat.lt_of_le_of_lt (unitsOf_mono (pow_ten_mono h)) hmax

theorem hasUnits_scaled (hsignificand : significand < UInt64.size) (hpower : power ≤ maxPower) :
    HasUnits ((ofNat significand).mul (powerOfTen power)) false
      (scaledUnits significand power) :=
  (hasUnits_ofNat significand).mul (hasUnits_ofNat (Nat.pow 10 power))
    (unitsOf_significand_lt hsignificand) (unitsOf_pow_lt hpower)

theorem scaled?_of_le_maxPower (hsignificand : significand < UInt64.size)
    (hpower : power ≤ maxPower) :
    scaled? negative significand power =
      if scaledUnits significand power < unitsLimit then
        some (.float (if negative then ((ofNat significand).mul (powerOfTen power)).neg
          else (ofNat significand).mul (powerOfTen power)))
      else none := by
  have hfinite := (hasUnits_scaled hsignificand hpower).isFinite_eq
  rw [scaled?, scaleByTen?, Int.natAbs_natCast, if_pos hpower, if_pos (Int.natCast_nonneg power)]
  by_cases hlimit : scaledUnits significand power < unitsLimit
  · simp [hfinite, hlimit]
  · simp [hfinite, hlimit]

theorem isZero_ofNat (hpos : 0 < significand) (hsignificand : significand < UInt64.size) :
    (ofNat significand).isZero = false := by
  have hone : 0 < unitsOf 1 := by decide +kernel
  have hunits : 0 < unitsOf significand := Nat.lt_of_lt_of_le hone (unitsOf_mono hpos)
  obtain ⟨m, s, hc, hx, hm⟩ := (hasUnits_ofNat significand).exists_finite
    (unitsOf_significand_lt hsignificand)
  rw [hx]
  have hne : m ≠ 0 := by
    rintro rfl
    omega
  simp [isZero, hne]

theorem scaled?_of_maxPower_lt (hpos : 0 < significand) (hsignificand : significand < UInt64.size)
    (hpower : maxPower < power) : scaled? negative significand power = none := by
  rw [scaled?, scaleByTen?, Int.natAbs_natCast, if_neg (Nat.not_le.2 hpower),
    isZero_ofNat hpos hsignificand, if_neg (by decide), if_pos (Int.natCast_nonneg power)]
  rfl

/-- The least integer that is past the largest double in the reader's arithmetic. -/
def rangeLimit : Nat := 17976931348623156225 * Nat.pow 10 (maxPower - 19)

example : rangeLimit < (2 ^ 53 - 1) * 2 ^ 971 := by decide +kernel

section

variable {low top limit : Nat}

theorem mul_add_lt (hsignificand : significand < limit) (hlow : low < top) :
    significand * top + low < limit * top := by
  have hmul := Nat.mul_le_mul_right top (Nat.succ_le_of_lt hsignificand)
  rw [Nat.succ_mul] at hmul
  omega

theorem mul_pow_add_lt (hsignificand : significand < UInt64.size) (hpower : power < top)
    (hlow : low < Nat.pow 10 power) :
    significand * Nat.pow 10 power + low < 17976931348623156225 * Nat.pow 10 top := by
  have hlt := mul_add_lt hsignificand hlow
  have hpow := pow_ten_mono (Nat.succ_le_of_lt hpower)
  have hsize : UInt64.size = 18446744073709551616 := rfl
  rw [hsize] at hlt
  rw [Nat.succ_eq_add_one, pow_ten_succ] at hpow
  omega

theorem le_mul_pow_add (hsignificand : 1844674407370955161 ≤ significand) (hpower : top < power)
    (low : Nat) :
    17976931348623156225 * Nat.pow 10 top ≤ significand * Nat.pow 10 power + low := by
  have hpow := pow_ten_mono (Nat.succ_le_of_lt hpower)
  have hmul := Nat.mul_le_mul hsignificand hpow
  rw [Nat.succ_eq_add_one, pow_ten_succ] at hmul
  omega

/-- Whether the product of doubles is finite shows in the digits. -/
theorem scaledUnits_lt_iff (hsignificand : significand < UInt64.size)
    (hleast : 1844674407370955161 ≤ significand) (hlow : low < Nat.pow 10 power)
    (htop : top = 289) :
    scaledUnits significand power < unitsLimit ↔
      significand * Nat.pow 10 power + low < 17976931348623156225 * Nat.pow 10 top := by
  -- All significands lie within a factor of ten, so the power decides unless it is `top`.
  rcases Nat.lt_trichotomy power top with hbelow | rfl | habove
  · have hlast : scaledUnits UInt64.size 288 < unitsLimit := by decide +kernel
    have hmono := scaledUnits_mono (Nat.le_of_lt hsignificand) (show power ≤ 288 by omega)
    exact iff_of_true (Nat.lt_of_le_of_lt hmono hlast) (mul_pow_add_lt hsignificand hbelow hlow)
  · rcases Nat.lt_or_ge significand 17976931348623156225 with hlt | hge
    · have hlast : scaledUnits 17976931348623156224 289 < unitsLimit := by decide +kernel
      have hmono := scaledUnits_mono (Nat.le_of_lt_succ hlt) (Nat.le_of_eq htop)
      exact iff_of_true (Nat.lt_of_le_of_lt hmono hlast) (mul_add_lt hlt hlow)
    · have hfirst : unitsLimit ≤ scaledUnits 17976931348623156225 289 := by decide +kernel
      have hmono := scaledUnits_mono hge (Nat.le_of_eq htop.symm)
      have hmul := Nat.mul_le_mul_right (Nat.pow 10 power) hge
      exact iff_of_false (Nat.not_lt.2 (Nat.le_trans hfirst hmono))
        (Nat.not_lt.2 (Nat.le_trans hmul (Nat.le_add_right _ low)))
  · have hfirst : unitsLimit ≤ scaledUnits 1844674407370955161 290 := by decide +kernel
    have hmono := scaledUnits_mono hleast (show 290 ≤ power by omega)
    exact iff_of_false (Nat.not_lt.2 (Nat.le_trans hfirst hmono))
      (Nat.not_lt.2 (le_mul_pow_add hleast habove low))

end

/-- A significand is refused with the powers for which the integer is past the largest double. -/
theorem scaled?_eq_none_iff {low : Nat} (hsignificand : significand < UInt64.size)
    (hfull : UInt64.size ≤ significand * 10 + 9) (hlow : low < Nat.pow 10 power) :
    scaled? negative significand power = none ↔
      rangeLimit ≤ significand * Nat.pow 10 power + low := by
  have hsize : UInt64.size = 18446744073709551616 := rfl
  have hleast : 1844674407370955161 ≤ significand := by omega
  rcases Nat.lt_or_ge maxPower power with hmax | hmax
  · have hpower : maxPower - 19 < power := Nat.lt_of_le_of_lt (Nat.sub_le _ _) hmax
    have hlimit := le_mul_pow_add hleast hpower low
    exact iff_of_true (scaled?_of_maxPower_lt negative (by omega) hsignificand hmax) hlimit
  · have hlimit := scaledUnits_lt_iff hsignificand hleast hlow (show maxPower - 19 = 289 from rfl)
    rw [scaled?_of_le_maxPower negative hsignificand hmax, ← Nat.not_lt, rangeLimit, ← hlimit]
    split
    · next hlt => simp [hlt]
    · next hlt => simp [hlt]

/-! ## Words -/

/-- The word that a written integer is taken for: its own, if it fits one, and the least word for
the 1024 integers next to it. -/
def takenFor? (n : Int) : Option Int64 :=
  if -9223372036854776832 ≤ n ∧ n < -9223372036854775808 then some Int64.minValue else word? n

theorem word?_eq_none {n : Int} (h : ¬ FitsWord n) : word? n = none := if_neg h

/-- A double past the words is none of them. -/
theorem toInt?_bind_word?_eq_none {x : Binary64} {negative : Bool} {units whole : Nat}
    (h : HasUnits x negative units) (hunits : whole * unitsPerOne ≤ units)
    (hwhole : if negative then 9223372036854775808 < whole else 9223372036854775807 < whole) :
    x.toInt?.bind word? = none := by
  by_cases hlimit : units < unitsLimit
  · rw [h.toInt?_eq hlimit]
    split
    · have hquot := (Nat.le_div_iff_mul_le unitsPerOne_pos).2 hunits
      generalize units / unitsPerOne = quot at hquot
      refine word?_eq_none ?_
      rintro ⟨hlower, hupper⟩
      cases negative with
      | true =>
          simp only [if_true] at hlower hwhole
          omega
      | false =>
          simp only [Bool.false_eq_true, if_false] at hupper hwhole
          omega
    · rfl
  · rw [h.eq_infinite (Nat.not_lt.1 hlimit)]
    rfl

/-- The double next to the least word is the least word. -/
theorem toInt?_bind_word?_least {x : Binary64} {units : Nat} (h : HasUnits x true units)
    (hunits : units = 9223372036854775808 * unitsPerOne) :
    x.toInt?.bind word? = some Int64.minValue := by
  have hlimit : 9223372036854775808 * unitsPerOne < unitsLimit := by decide +kernel
  rw [hunits] at h
  rw [h.toInt?_mul hlimit]
  rfl

theorem toWord?_float (x : Binary64) :
    (literalOfNumber (.float x)).toWord? = x.toInt?.bind word? := x.toWord?_eq

theorem toWord?_of_int (n : Nat) :
    (literalOfNumber (.int n)).toWord? = word? n := by
  rw [literalOfNumber]
  cases hw : word? n with
  | some w => rfl
  | none =>
      -- The integer is past the words, and so is its double.
      have hlarge : 9223372036854775808 ≤ n := by
        by_contra hlt
        rw [word?, if_pos (by constructor <;> omega)] at hw
        cases hw
      have hunits : HasUnits (ofInt n) false (unitsOf n) := by
        have hsign : decide ((n : Int) < 0) = false := by simp
        rw [ofInt, hsign, Int.natAbs_natCast]
        exact hasUnits_round false Nat.one_pos _
      have hleast : 9223372036854775808 * unitsPerOne ≤ unitsOf 9223372036854775808 := by
        decide +kernel
      exact (Binary64.toWord?_eq _).trans
        (toInt?_bind_word?_eq_none hunits (Nat.le_trans hleast (unitsOf_mono hlarge)) (by decide))

/-- A negative integer of at most 64 bits that is no word. -/
theorem toWord?_of_below (hlarge : 9223372036854775808 < significand) :
    (ofNat significand).neg.toInt?.bind word? = takenFor? (-(significand : Int)) := by
  have hunits := (hasUnits_ofNat significand).neg
  have hleast : unitsOf 9223372036854775808 = 9223372036854775808 * unitsPerOne := by
    decide +kernel
  have hlast : unitsOf 9223372036854776832 = 9223372036854775808 * unitsPerOne := by
    decide +kernel
  have hnext : 9223372036854775809 * unitsPerOne ≤ unitsOf 9223372036854776833 := by
    decide +kernel
  rcases Nat.lt_or_ge 9223372036854776832 significand with hfar | hnear
  · have hmono := unitsOf_mono (Nat.succ_le_of_lt hfar)
    rw [toInt?_bind_word?_eq_none hunits (Nat.le_trans hnext hmono) (by decide), takenFor?,
      if_neg (by omega), word?_eq_none (by omega)]
  · -- rounding is monotone, and both ends of the range are rounded to the least word
    have heq : unitsOf significand = 9223372036854775808 * unitsPerOne :=
      Nat.le_antisymm ((unitsOf_mono hnear).trans_eq hlast)
        (hleast.symm.trans_le (unitsOf_mono (Nat.le_of_lt hlarge)))
    rw [toInt?_bind_word?_least hunits heq, takenFor?, if_pos (by omega)]

/-- An integer of more than 64 bits is no word, whatever double it becomes. -/
theorem toWord?_of_scaled? {x : Numeric} (hsignificand : significand < UInt64.size)
    (hfull : UInt64.size ≤ significand * 10 + 9) (hpower : 0 < power)
    (hx : scaled? negative significand power = some x) : (literalOfNumber x).toWord? = none := by
  have hsize : UInt64.size = 18446744073709551616 := rfl
  rcases Nat.lt_or_ge maxPower power with hmax | hmax
  · rw [scaled?_of_maxPower_lt negative (by omega) hsignificand hmax] at hx
    cases hx
  · have hunits := hasUnits_scaled hsignificand hmax
    have hleast : 9223372036854775809 * unitsPerOne ≤ scaledUnits 1844674407370955161 1 := by
      decide +kernel
    have hmono := scaledUnits_mono (show 1844674407370955161 ≤ significand by omega)
      (show 1 ≤ power from hpower)
    have hlarge := Nat.le_trans hleast hmono
    rw [scaled?_of_le_maxPower negative hsignificand hmax] at hx
    split at hx
    · obtain rfl := Option.some.inj hx
      rw [toWord?_float]
      cases negative with
      | true =>
          rw [if_pos rfl]
          exact toInt?_bind_word?_eq_none hunits.neg hlarge (by decide)
      | false =>
          rw [if_neg (by decide)]
          exact toInt?_bind_word?_eq_none hunits hlarge (by decide)
    · cases hx

/-- The digits behind the significand of an integer, and what they come to. -/
structure Remainder (significand power low : Nat) : Prop where
  fits : significand < UInt64.size
  low_lt : low < Nat.pow 10 power
  full : 0 < power → UInt64.size ≤ significand * 10 + 9

/-- An integer with a sign. -/
def signed (negative : Bool) (n : Nat) : Int := if negative then -(n : Int) else n

theorem integer?_eq_none_iff {low : Nat} (h : Remainder significand power low) :
    integer? negative significand power = none ↔
      rangeLimit ≤ significand * Nat.pow 10 power + low := by
  rcases Nat.eq_zero_or_pos power with rfl | hpos
  · have hlimit := mul_pow_add_lt h.fits (show 0 < maxPower - 19 by decide) h.low_lt
    refine iff_of_false ?_ (Nat.not_le.2 hlimit)
    rw [integer?, if_neg (by simp)]
    split
    · simp
    · split
      · simp
      · simp
  · rw [integer?, if_pos (Nat.ne_of_gt hpos)]
    exact scaled?_eq_none_iff negative h.fits (h.full hpos) h.low_lt

theorem takenFor?_of_le {n : Int} (h : -9223372036854775808 ≤ n) : takenFor? n = word? n := by
  rw [takenFor?, if_neg (by omega)]

theorem takenFor?_of_large {n : Nat} (h : 9223372036854776832 < n) :
    takenFor? (signed negative n) = none := by
  cases negative with
  | true =>
      have hsigned : signed true n = -(n : Int) := rfl
      rw [hsigned, takenFor?, if_neg (by omega), word?_eq_none (by omega)]
  | false =>
      have hsigned : signed false n = (n : Int) := rfl
      rw [hsigned, takenFor?, if_neg (by omega), word?_eq_none (by omega)]

/-- The word of a negative integer of at most 64 bits. -/
theorem toWord?_of_negative {x : Numeric} (hx : integer? true significand 0 = some x) :
    (literalOfNumber x).toWord? = takenFor? (-(significand : Int)) := by
  rw [integer?, if_neg (by simp), if_neg (by simp)] at hx
  split at hx
  · next hfloat =>
      obtain rfl := Option.some.inj hx
      rw [toWord?_float]
      rcases hfloat with rfl | hlarge
      · decide +kernel
      · exact toWord?_of_below hlarge
  · next hfits =>
      obtain rfl := Option.some.inj hx
      have hword : FitsWord (-(significand : Int)) := by constructor <;> omega
      rw [takenFor?_of_le hword.1, literalOfNumber, word?, if_pos hword]
      rfl

/-- The word that an integer comes to does not depend on how its digits are split. -/
theorem toWord?_of_integer? {low : Nat} (h : Remainder significand power low) {x : Numeric}
    (hx : integer? negative significand power = some x) :
    (literalOfNumber x).toWord? =
      takenFor? (signed negative (significand * Nat.pow 10 power + low)) := by
  rcases Nat.eq_zero_or_pos power with rfl | hpos
  · have hvalue : significand * Nat.pow 10 0 + low = significand := by
      rw [Nat.lt_one_iff.1 h.low_lt]
      exact Nat.mul_one significand
    rw [hvalue]
    cases negative with
    | true => exact toWord?_of_negative hx
    | false =>
        obtain rfl : Numeric.int significand = x := Option.some.inj hx
        have hsigned : signed false significand = (significand : Int) := rfl
        rw [hsigned, toWord?_of_int, takenFor?_of_le (by omega)]
  · have hsize : UInt64.size = 18446744073709551616 := rfl
    have hfits := h.fits
    have hfull := h.full hpos
    have hmul := Nat.mul_le_mul (show 1844674407370955161 ≤ significand by omega)
      (pow_ten_mono (show 1 ≤ power from hpos))
    have hten : Nat.pow 10 1 = 10 := rfl
    rw [hten] at hmul
    rw [integer?, if_pos (Nat.ne_of_gt hpos)] at hx
    rw [toWord?_of_scaled? negative hfits hfull hpos hx, takenFor?_of_large negative (by omega)]

/-! ## Written integers -/

namespace Numeral

/-- An integer has neither a fraction nor a power of ten. -/
def IsInteger (n : Numeral) : Prop := n.fraction = none ∧ n.power = none

/-- The number that the digits of an integer write. -/
def magnitude (n : Numeral) : Nat := digitsValue n.whole.chars

/-- The integer that is written. -/
def toInt (n : Numeral) : Int := signed n.negative n.magnitude

theorem remainder (n : Numeral) :
    Remainder (takeFitting 0 n.whole.chars).1 (takeFitting 0 n.whole.chars).2.length
      (Nat.ofDigitChars 10 (takeFitting 0 n.whole.chars).2 0) where
  fits := takeFitting_lt n.whole.chars (by decide)
  low_lt := ofDigitChars_lt (isDigit_of_mem_takeFitting 0 n.whole.isDigit)
  full h := full_of_takeFitting n.whole.isDigit (List.length_pos_iff.1 h)

theorem magnitude_eq (n : Numeral) :
    (takeFitting 0 n.whole.chars).1 * Nat.pow 10 (takeFitting 0 n.whole.chars).2.length
      + Nat.ofDigitChars 10 (takeFitting 0 n.whole.chars).2 0 = n.magnitude := by
  have hsplit := @Nat.ofDigitChars_eq_ofDigitChars_zero (takeFitting 0 n.whole.chars).2
    (takeFitting 0 n.whole.chars).1
  rw [magnitude, digitsValue, ← ofDigitChars_takeFitting n.whole.isDigit 0, hsplit, Nat.mul_comm]
  rfl

theorem numeric?_of_isInteger {n : Numeral} (h : n.IsInteger) :
    n.numeric? = integer? n.negative (takeFitting 0 n.whole.chars).1
      (takeFitting 0 n.whole.chars).2.length := by
  rw [numeric?, h.1, h.2]

/-- An integer stands for a number unless it is past the largest double. -/
theorem numeric?_eq_none_iff {n : Numeral} (h : n.IsInteger) :
    n.numeric? = none ↔ rangeLimit ≤ n.magnitude := by
  rw [numeric?_of_isInteger h, integer?_eq_none_iff n.negative n.remainder, n.magnitude_eq]

/-- The word that a written integer comes to. -/
theorem toWord?_of_numeric? {n : Numeral} (h : n.IsInteger) {x : Numeric}
    (hx : n.numeric? = some x) : (literalOfNumber x).toWord? = takenFor? n.toInt := by
  rw [numeric?_of_isInteger h] at hx
  rw [toWord?_of_integer? n.negative n.remainder hx, n.magnitude_eq, toInt]

end Numeral

end Criteria.Payload
