import Criteria.Number.Decimal.Text
import Criteria.Proofs.Number.Written

set_option autoImplicit false

/-! # Digits of decimals

Digits with at most one point, and underscores behind the first digit (`Continues`), write a number
(`numberOf`). It fits a decimal if it is below `decimalLimit`, half above the largest one: reading
succeeds for these numbers and no others (`reads_readParts?`).

Digits that do not fit are rounded off before a power of ten counts. That makes no difference to
what fits, because the decimal that is left stands for the number in this respect (`Stands`): the
same powers of ten lead past the limit. -/

namespace Criteria.Number.Decimal

open Payload (digit_le)

/-! ## Standing for a number -/

/-- Half above the largest decimal. -/
def decimalLimit : ℚ := 2 ^ 96 - 1 / 2

/-- The decimal with these parts may be moved by the same powers of ten as the number. -/
structure Stands (v : ℚ) (coefficient scale : Nat) : Prop where
  coefficient_lt : coefficient < Nat.pow 2 96
  scale_le : scale ≤ 28
  fits_iff : ∀ e ≤ 28,
    coefficient * Nat.pow 10 e < Nat.pow 2 96 * Nat.pow 10 scale ↔ v * 10 ^ e < decimalLimit

variable {v : ℚ} {coefficient scale : Nat}

theorem natCast_lt_decimalLimit_iff (n : Nat) : (n : ℚ) < decimalLimit ↔ n < Nat.pow 2 96 := by
  have hpow : Nat.pow 2 96 = 79228162514264337593543950336 := rfl
  rw [decimalLimit, hpow]
  constructor
  · intro h
    have hlt : (n : ℚ) < (79228162514264337593543950336 : Nat) := by
      push_cast
      linarith
    exact Nat.cast_lt.1 hlt
  · intro h
    have hle : ((n + 1 : Nat) : ℚ) ≤ (79228162514264337593543950336 : Nat) := Nat.cast_le.2 h
    push_cast at hle
    linarith

theorem pow_ten_le {e s : Nat} (h : e ≤ s) : (10 : ℚ) ^ e ≤ 10 ^ s :=
  pow_le_pow_right₀ (by norm_num) h

/-- A decimal that leaves no room for another digit. -/
theorem stands_of_full (hv : 0 ≤ v) (hcoefficient : coefficient < Nat.pow 2 96)
    (hscale : scale ≤ 28) (hlt : v * 10 ^ scale < decimalLimit)
    (hfull : scale < 28 → Nat.pow 2 96 ≤ coefficient * 10 ∧ decimalLimit ≤ v * 10 ^ scale * 10) :
    Stands v coefficient scale := by
  refine ⟨hcoefficient, hscale, ?_⟩
  intro e he
  rcases Nat.lt_or_ge scale e with hlarge | hsmall
  · obtain ⟨hten, hlimit⟩ := hfull (by omega)
    refine iff_of_false (Nat.not_lt.2 ?_) (not_lt.2 (hlimit.trans ?_))
    · calc Nat.pow 2 96 * Nat.pow 10 scale ≤ coefficient * 10 * Nat.pow 10 scale :=
            Nat.mul_le_mul_right _ hten
        _ = coefficient * Nat.pow 10 (scale + 1) := by
            rw [Nat.mul_assoc, Nat.mul_comm 10]
            rfl
        _ ≤ coefficient * Nat.pow 10 e :=
            Nat.mul_le_mul_left _ (Nat.pow_le_pow_right (by decide) hlarge)
    · rw [mul_assoc, ← pow_succ]
      exact mul_le_mul_of_nonneg_left (pow_ten_le hlarge) hv
  · refine iff_of_true ?_ (lt_of_le_of_lt ?_ hlt)
    · exact Nat.mul_lt_mul_of_lt_of_le hcoefficient (Nat.pow_le_pow_right (by decide) hsmall)
        (Nat.pow_pos (by decide))
    · exact mul_le_mul_of_nonneg_left (pow_ten_le hsmall) hv

/-- A decimal that is the number. -/
theorem stands_self (hcoefficient : coefficient < Nat.pow 2 96) (hscale : scale ≤ 28) :
    Stands (coefficient / 10 ^ scale) coefficient scale := by
  refine ⟨hcoefficient, hscale, ?_⟩
  intro e _
  have hpos : (0 : ℚ) < 10 ^ scale := by positivity
  rcases Nat.lt_or_ge scale e with hlarge | hsmall
  · obtain ⟨k, rfl⟩ := Nat.exists_eq_add_of_lt hlarge
    have hvalue : (coefficient / 10 ^ scale * 10 ^ (scale + k + 1) : ℚ) =
        (coefficient * Nat.pow 10 (k + 1) : Nat) := by
      rw [Nat.add_assoc, pow_add, ← mul_assoc, div_mul_cancel₀ _ hpos.ne']
      simp
    have hsplit : Nat.pow 10 (scale + k + 1) = Nat.pow 10 (k + 1) * Nat.pow 10 scale := by
      rw [Nat.add_assoc, Nat.add_comm]
      exact Nat.pow_add 10 (k + 1) scale
    rw [hvalue, natCast_lt_decimalLimit_iff, hsplit, ← Nat.mul_assoc]
    exact Nat.mul_lt_mul_right (Nat.pow_pos (by decide))
  · refine iff_of_true ?_ (lt_of_le_of_lt ?_ ((natCast_lt_decimalLimit_iff _).2 hcoefficient))
    · exact Nat.mul_lt_mul_of_lt_of_le hcoefficient (Nat.pow_le_pow_right (by decide) hsmall)
        (Nat.pow_pos (by decide))
    · calc (coefficient / 10 ^ scale * 10 ^ e : ℚ) ≤ coefficient / 10 ^ scale * 10 ^ scale :=
            mul_le_mul_of_nonneg_left (pow_ten_le hsmall) (by positivity)
        _ = coefficient := div_mul_cancel₀ _ hpos.ne'

/-! ## Rounding off -/

section

variable {digit : Nat} {rest : List Char} {parts : Nat × Nat}

/-- Digits are left out from this one on. -/
structure LeavesOut (v : ℚ) (coefficient scale digit : Nat) : Prop where
  coefficient_lt : coefficient < Nat.pow 2 96
  scale_le : scale ≤ 28
  digit_le : digit ≤ 9
  lower : coefficient * 10 + digit ≤ v * 10 ^ scale * 10
  upper : v * 10 ^ scale * 10 < coefficient * 10 + digit + 1
  full : scale < 28 → Nat.pow 2 96 ≤ coefficient * 10 + digit

theorem LeavesOut.nonneg (h : LeavesOut v coefficient scale digit) : 0 ≤ v := by
  have hpos : (0 : ℚ) < 10 ^ scale * 10 := by positivity
  have hlower := h.lower
  rw [mul_assoc] at hlower
  exact nonneg_of_mul_nonneg_left (le_trans (by positivity) hlower) hpos

theorem LeavesOut.decimalLimit_le (h : LeavesOut v coefficient scale digit) (hscale : scale < 28) :
    decimalLimit ≤ v * 10 ^ scale * 10 := by
  have hcast : ((Nat.pow 2 96 : Nat) : ℚ) ≤ (coefficient * 10 + digit : Nat) :=
    Nat.cast_le.2 (h.full hscale)
  simp only [Nat.pow_eq] at hcast
  push_cast at hcast
  rw [decimalLimit]
  linarith [h.lower]

theorem cast_succ_le {m n : Nat} (h : m < n) : (m : ℚ) + 1 ≤ n := by
  exact_mod_cast h

/-- What is left after rounding stands for the number. -/
theorem stands_of_roundOff? (h : LeavesOut v coefficient scale digit)
    (hparts : roundOff? coefficient scale digit rest = some parts) : Stands v parts.1 parts.2 := by
  have hpow : Nat.pow 2 96 = 79228162514264337593543950336 := rfl
  have hnonneg := h.nonneg
  have hlimit := h.decimalLimit_le
  obtain ⟨hcoefficient, hscale, hten, hlower, hupper, hfull⟩ := h
  rw [hpow] at hcoefficient hfull
  rw [roundOff?, hpow] at hparts
  split_ifs at hparts with hform hdigit hnext hzero
  · -- the digits that are left out are less than a half
    obtain rfl := Option.some.inj hparts
    refine stands_of_full hnonneg hcoefficient hscale ?_ ?_
    · have hle := cast_succ_le hcoefficient
      have hfive := cast_succ_le hdigit
      push_cast at hle hfive
      rw [decimalLimit]
      linarith
    · intro hless
      refine ⟨?_, hlimit hless⟩
      have hroom := hfull hless
      rw [hpow]
      omega
  · -- they are a half or more, and there is room for one more step
    obtain rfl := Option.some.inj hparts
    refine stands_of_full hnonneg hnext hscale ?_ ?_
    · have hle := cast_succ_le hnext
      have hnine : (digit : ℚ) ≤ 9 := by exact_mod_cast hten
      push_cast at hle
      rw [decimalLimit]
      linarith
    · intro hless
      refine ⟨?_, hlimit hless⟩
      have hroom := hfull hless
      rw [hpow]
      omega
  · -- there is no room, so a digit more is left out
    obtain rfl := Option.some.inj hparts
    obtain ⟨k, rfl⟩ := Nat.exists_eq_succ_of_ne_zero hzero
    obtain rfl : coefficient = 79228162514264337593543950335 := by omega
    rw [Nat.succ_eq_add_one, pow_succ, ← mul_assoc] at hlower hupper
    have hfive : (5 : ℚ) ≤ digit := by exact_mod_cast Nat.not_lt.1 hdigit
    have hnine : (digit : ℚ) ≤ 9 := by exact_mod_cast hten
    push_cast at hlower hupper
    dsimp only
    rw [Nat.succ_sub_one]
    refine stands_of_full hnonneg (by decide) (by omega) ?_ ?_
    · rw [decimalLimit]
      linarith
    · intro _
      rw [decimalLimit]
      exact ⟨by decide, by linarith⟩

/-- Only a number past the limit cannot be rounded off. -/
theorem exists_roundOff? (h : LeavesOut v coefficient scale digit) (hv : v < decimalLimit)
    (hrest : ∀ c ∈ rest, c.isDigit = true ∨ c = '_') :
    ∃ parts, roundOff? coefficient scale digit rest = some parts := by
  have hpow : Nat.pow 2 96 = 79228162514264337593543950336 := rfl
  have hform : rest.all (fun c => c.isDigit || c == '_') = true := by simpa using hrest
  rw [roundOff?, hform, if_neg (by decide)]
  split_ifs with hdigit hnext hzero
  · exact ⟨_, rfl⟩
  · exact ⟨_, rfl⟩
  · have hlower := h.lower
    rw [hpow, Nat.not_lt] at hnext
    have hle : (79228162514264337593543950336 : ℚ) ≤ coefficient + 1 := by exact_mod_cast hnext
    have hfive : (5 : ℚ) ≤ digit := by exact_mod_cast Nat.not_lt.1 hdigit
    rw [hzero, pow_zero, mul_one] at hlower
    rw [decimalLimit] at hv
    linarith
  · exact ⟨_, rfl⟩

end

/-! ## Digits, points and underscores -/

/-- The characters continue a decimal that had a point iff `point`, and a digit iff `seen`. -/
structure Continues (point seen : Bool) (cs : List Char) : Prop where
  chars : ∀ c ∈ cs, c.isDigit = true ∨ c = '.' ∨ c = '_'
  points : cs.count '.' ≤ if point then 0 else 1
  digit : seen = false → ∃ c ∈ cs.takeWhile (· ≠ '_'), c.isDigit = true

/-- The digits behind the point, which stands in front of the characters iff `point`. -/
def decimals (point : Bool) (cs : List Char) : List Char :=
  (if point then cs else cs.dropWhile (· ≠ '.')).filter Char.isDigit

/-- The number that the characters come to behind those already read. -/
def numberOf (coefficient scale : Nat) (point : Bool) (cs : List Char) : ℚ :=
  Nat.ofDigitChars 10 (cs.filter Char.isDigit) coefficient /
    10 ^ (scale + (decimals point cs).length)

section

variable {point seen : Bool} {d : Char} {cs : List Char}

theorem continues_nil : Continues point seen [] ↔ seen = true := by
  constructor
  · intro h
    by_contra hseen
    obtain ⟨c, hc, -⟩ := h.digit (by simpa using hseen)
    simp at hc
  · rintro rfl
    exact ⟨by simp, by simp, by simp⟩

theorem continues_digit (hd : d.isDigit = true) :
    Continues point seen (d :: cs) ↔ Continues point true cs := by
  have hpoint : d ≠ '.' := by
    rintro rfl
    cases hd
  have hscore : d ≠ '_' := by
    rintro rfl
    cases hd
  constructor
  · intro h
    refine ⟨fun c hc => h.chars c (List.mem_cons_of_mem d hc), ?_, by simp⟩
    rw [← List.count_cons_of_ne hpoint]
    exact h.points
  · intro h
    refine ⟨?_, ?_, fun _ => ⟨d, by simp [hscore], hd⟩⟩
    · intro c hc
      rcases List.mem_cons.1 hc with rfl | hc
      · exact Or.inl hd
      · exact h.chars c hc
    · rw [List.count_cons_of_ne hpoint]
      exact h.points

theorem continues_point : Continues false seen ('.' :: cs) ↔ Continues true seen cs := by
  constructor
  · intro h
    refine ⟨fun c hc => h.chars c (List.mem_cons_of_mem _ hc), ?_, ?_⟩
    · have hpoints := h.points
      rw [List.count_cons_self] at hpoints
      simpa using hpoints
    · intro hseen
      obtain ⟨c, hc, hdigit⟩ := h.digit hseen
      rw [List.takeWhile_cons_of_pos (by decide)] at hc
      rcases List.mem_cons.1 hc with rfl | hc
      · cases hdigit
      · exact ⟨c, hc, hdigit⟩
  · intro h
    refine ⟨?_, ?_, ?_⟩
    · intro c hc
      rcases List.mem_cons.1 hc with rfl | hc
      · exact Or.inr (Or.inl rfl)
      · exact h.chars c hc
    · have hpoints := h.points
      rw [List.count_cons_self]
      simpa using hpoints
    · intro hseen
      obtain ⟨c, hc, hdigit⟩ := h.digit hseen
      rw [List.takeWhile_cons_of_pos (by decide)]
      exact ⟨c, List.mem_cons_of_mem _ hc, hdigit⟩

theorem continues_score : Continues point true ('_' :: cs) ↔ Continues point true cs := by
  constructor
  · intro h
    refine ⟨fun c hc => h.chars c (List.mem_cons_of_mem _ hc), ?_, by simp⟩
    rw [← List.count_cons_of_ne (show '_' ≠ '.' by decide)]
    exact h.points
  · intro h
    refine ⟨?_, ?_, by simp⟩
    · intro c hc
      rcases List.mem_cons.1 hc with rfl | hc
      · exact Or.inr (Or.inr rfl)
      · exact h.chars c hc
    · rw [List.count_cons_of_ne (by decide)]
      exact h.points

/-- A character that is none of these, or that stands out of place. -/
theorem not_continues (hd : d.isDigit = false) (hpoint : ¬ (d = '.' ∧ point = false))
    (hscore : ¬ (d = '_' ∧ seen = true)) : ¬ Continues point seen (d :: cs) := by
  intro h
  rcases h.chars d (by simp) with hdigit | rfl | rfl
  · exact absurd (hd.symm.trans hdigit) (by decide)
  · have hpoints := h.points
    rw [List.count_cons_self] at hpoints
    cases point with
    | false => exact hpoint ⟨rfl, rfl⟩
    | true => simp at hpoints
  · cases seen with
    | true => exact hscore ⟨rfl, rfl⟩
    | false =>
        obtain ⟨c, hc, -⟩ := h.digit rfl
        simp at hc

variable (coefficient scale : Nat)

theorem numberOf_digit (hd : d.isDigit = true) :
    numberOf coefficient scale point (d :: cs) =
      numberOf (coefficient * 10 + (d.toNat - '0'.toNat)) (if point then scale + 1 else scale)
        point cs := by
  have hpoint : d ≠ '.' := by
    rintro rfl
    cases hd
  rw [numberOf, numberOf, List.filter_cons_of_pos hd, Nat.ofDigitChars_cons, Nat.mul_comm 10]
  cases point with
  | true =>
      simp only [decimals, if_true, List.filter_cons_of_pos hd, List.length_cons]
      rw [Nat.add_right_comm, Nat.add_assoc]
  | false => simp [decimals, hpoint]

theorem numberOf_point :
    numberOf coefficient scale false ('.' :: cs) = numberOf coefficient scale true cs := by
  simp [numberOf, decimals]

theorem numberOf_score :
    numberOf coefficient scale point ('_' :: cs) = numberOf coefficient scale point cs := by
  have hdigit : '_'.isDigit = false := by decide
  cases point <;> simp [numberOf, decimals, hdigit]

/-- Behind a point and a digit no other character is possible. -/
theorem continues_behind_iff :
    Continues true true cs ↔ ∀ c ∈ cs, c.isDigit = true ∨ c = '_' := by
  constructor
  · intro h c hc
    have hcount : cs.count '.' = 0 := by simpa using h.points
    rcases h.chars c hc with hdigit | rfl | hscore
    · exact Or.inl hdigit
    · exact absurd hc (List.count_eq_zero.1 hcount)
    · exact Or.inr hscore
  · intro h
    refine ⟨?_, ?_, by simp⟩
    · intro c hc
      rcases h c hc with hdigit | hscore
      · exact Or.inl hdigit
      · exact Or.inr (Or.inr hscore)
    · have hnot : '.' ∉ cs := by
        intro hmem
        rcases h _ hmem with hdigit | hscore
        · cases hdigit
        · cases hscore
      simp [List.count_eq_zero.2 hnot]

/-- Digits that are appended leave a number below the next whole one. -/
theorem ofDigitChars_lt_succ_mul {ds : List Char} (hds : ∀ c ∈ ds, c.isDigit = true) (n : Nat) :
    Nat.ofDigitChars 10 ds n < (n + 1) * 10 ^ ds.length := by
  have hlt := Payload.ofDigitChars_lt hds
  rw [Nat.ofDigitChars_eq_ofDigitChars_zero, Nat.succ_mul, Nat.mul_comm]
  omega

theorem isDigit_filter (cs : List Char) : ∀ c ∈ cs.filter Char.isDigit, c.isDigit = true :=
  fun _ hc => (List.mem_filter.1 hc).2

/-- Behind the point the number stays between its digits and the next whole number of them. -/
theorem numberOf_bounds (cs : List Char) :
    coefficient ≤ numberOf coefficient scale true cs * 10 ^ scale ∧
      numberOf coefficient scale true cs * 10 ^ scale < coefficient + 1 := by
  have hpos : (0 : ℚ) < 10 ^ scale := by positivity
  have hlen : (0 : ℚ) < 10 ^ (cs.filter Char.isDigit).length := by positivity
  have hlower := Payload.mul_pow_le_ofDigitChars (cs.filter Char.isDigit) coefficient
  have hupper := ofDigitChars_lt_succ_mul (isDigit_filter cs) coefficient
  have hvalue : numberOf coefficient scale true cs * 10 ^ scale =
      Nat.ofDigitChars 10 (cs.filter Char.isDigit) coefficient /
        10 ^ (cs.filter Char.isDigit).length := by
    rw [numberOf, decimals, if_pos rfl, pow_add]
    field_simp
  rw [hvalue, le_div_iff₀ hlen, div_lt_iff₀ hlen]
  exact ⟨by exact_mod_cast hlower, by exact_mod_cast hupper⟩

theorem leavesOut_digit (cs : List Char) (hd : d.isDigit = true)
    (hcoefficient : coefficient < Nat.pow 2 96) (hscale : scale ≤ 28)
    (hfull : scale < 28 → Nat.pow 2 96 ≤ coefficient * 10 + (d.toNat - '0'.toNat)) :
    LeavesOut (numberOf coefficient scale true (d :: cs)) coefficient scale
      (d.toNat - '0'.toNat) := by
  obtain ⟨hlower, hupper⟩ :=
    numberOf_bounds (coefficient * 10 + (d.toNat - '0'.toNat)) (scale + 1) cs
  rw [numberOf_digit coefficient scale hd, if_pos rfl]
  rw [pow_succ, ← mul_assoc] at hlower hupper
  push_cast at hlower hupper
  exact ⟨hcoefficient, hscale, digit_le hd, hlower, hupper, hfull⟩

/-- What reading the characters comes to: a result means that they have the form of a decimal and
that it stands for their number; and there is one if they have that form and their number fits. -/
structure Reads (coefficient scale : Nat) (point seen : Bool) (cs : List Char)
    (result : Option (Nat × Nat)) : Prop where
  sound : ∀ parts, result = some parts → Continues point seen cs ∧
    Stands (numberOf coefficient scale point cs) parts.1 parts.2
  complete : Continues point seen cs → numberOf coefficient scale point cs < decimalLimit →
    ∃ parts, result = some parts

variable {coefficient scale}

theorem Reads.congr {coefficient' scale' : Nat} {point' seen' : Bool} {cs' : List Char}
    {result : Option (Nat × Nat)} (h : Reads coefficient' scale' point' seen' cs' result)
    (hcontinues : Continues point seen cs ↔ Continues point' seen' cs')
    (hnumber : numberOf coefficient scale point cs = numberOf coefficient' scale' point' cs') :
    Reads coefficient scale point seen cs result := by
  obtain ⟨hsound, hcomplete⟩ := h
  rw [← hcontinues, ← hnumber] at hcomplete
  simp only [← hcontinues, ← hnumber] at hsound
  exact ⟨hsound, hcomplete⟩

theorem reads_none (h : ¬ Continues point seen cs) :
    Reads coefficient scale point seen cs none := by
  refine ⟨?_, fun hcontinues => absurd hcontinues h⟩
  intro parts hparts
  cases hparts

theorem form_of_roundOff? {digit : Nat} {parts : Nat × Nat}
    (h : roundOff? coefficient scale digit cs = some parts) :
    ∀ c ∈ cs, c.isDigit = true ∨ c = '_' := by
  rw [roundOff?] at h
  split at h
  · cases h
  · next hform =>
      intro c hc
      rw [Bool.not_eq_true, Bool.not_eq_false', List.all_eq_true] at hform
      simpa using hform c hc

theorem reads_roundOff? (hd : d.isDigit = true) (hcoefficient : coefficient < Nat.pow 2 96)
    (hscale : scale ≤ 28)
    (hfull : scale < 28 → Nat.pow 2 96 ≤ coefficient * 10 + (d.toNat - '0'.toNat)) :
    Reads coefficient scale true seen (d :: cs)
      (roundOff? coefficient scale (d.toNat - '0'.toNat) cs) := by
  have hleaves := leavesOut_digit coefficient scale cs hd hcoefficient hscale hfull
  constructor
  · intro parts hparts
    refine ⟨(continues_digit hd).2 (continues_behind_iff.2 (form_of_roundOff? hparts)), ?_⟩
    exact stands_of_roundOff? hleaves hparts
  · intro hcontinues hlt
    exact exists_roundOff? hleaves hlt
      (continues_behind_iff.1 ((continues_digit hd).1 hcontinues))

/-- An underscore behind the last place that fits ends a short coefficient. -/
theorem reads_score (hshort : isLong coefficient = false) :
    Reads coefficient 28 true true ('_' :: cs) (roundOff? coefficient 28 0 cs) := by
  have hsmall : coefficient < Nat.pow 2 64 := by
    have hpow : Nat.pow 2 64 = 18446744073709551616 := rfl
    have hroom : (UInt64.size - 1) / 10 - 255 = 1844674407370954906 := rfl
    rw [isLong, hroom, decide_eq_false_iff_not] at hshort
    rw [hpow]
    omega
  have hcoefficient := Nat.lt_trans hsmall (show Nat.pow 2 64 < Nat.pow 2 96 by decide)
  have hround {parts} (h : roundOff? coefficient 28 0 cs = some parts) :
      parts = (coefficient, 28) := by
    rw [roundOff?, if_pos (show 0 < 5 by decide)] at h
    split_ifs at h
    exact (Option.some.inj h).symm
  constructor
  · intro parts hparts
    refine ⟨continues_score.2 (continues_behind_iff.2 (form_of_roundOff? hparts)), ?_⟩
    obtain ⟨hlower, hupper⟩ := numberOf_bounds coefficient 28 cs
    rw [hround hparts, numberOf_score]
    refine stands_of_full ?_ hcoefficient (le_refl 28) (hupper.trans_le ?_) (by simp)
    · exact div_nonneg (Nat.cast_nonneg _) (by positivity)
    · have hle := cast_succ_le hsmall
      rw [decimalLimit]
      norm_num at hle ⊢
      linarith
  · intro hcontinues _
    have hform := continues_behind_iff.1 (continues_score.1 hcontinues)
    have hall : cs.all (fun c => c.isDigit || c == '_') = true := by simpa using hform
    exact ⟨(coefficient, 28), by rw [roundOff?, hall]; rfl⟩

/-- In front of the point the number is not less than its digits so far. -/
theorem le_numberOf (coefficient : Nat) (cs : List Char) :
    coefficient ≤ numberOf coefficient 0 false cs := by
  have hpos : (0 : ℚ) < 10 ^ (decimals false cs).length := by positivity
  have hsuffix : (decimals false cs).length ≤ (cs.filter Char.isDigit).length :=
    ((List.dropWhile_suffix _).sublist.filter _).length_le
  have hlower := Payload.mul_pow_le_ofDigitChars (cs.filter Char.isDigit) coefficient
  have hpow :=
    Nat.mul_le_mul_left coefficient (Nat.pow_le_pow_right (show 0 < 10 by decide) hsuffix)
  rw [numberOf, Nat.zero_add, le_div_iff₀ hpos]
  exact_mod_cast Nat.le_trans hpow hlower

theorem not_lt_decimalLimit_of_le {n : Nat} (hn : Nat.pow 2 96 ≤ n) (h : (n : ℚ) ≤ v) :
    ¬ v < decimalLimit := by
  intro hlt
  exact Nat.not_lt.2 hn ((natCast_lt_decimalLimit_iff n).1 (lt_of_le_of_lt h hlt))

theorem reads_nil (hcoefficient : coefficient < Nat.pow 2 96) (hscale : scale ≤ 28) :
    Reads coefficient scale point seen [] (if seen then some (coefficient, scale) else none) := by
  split_ifs with hseen
  · have hnumber : numberOf coefficient scale point [] = coefficient / 10 ^ scale := by
      cases point <;> simp [numberOf, decimals]
    refine ⟨?_, fun _ _ => ⟨_, rfl⟩⟩
    intro parts hparts
    obtain rfl := Option.some.inj hparts
    rw [hnumber]
    exact ⟨continues_nil.2 hseen, stands_self hcoefficient hscale⟩
  · exact reads_none (by rwa [continues_nil])

/-- One digit, if what is behind it is read as it should be. -/
theorem reads_digit (hd : d.isDigit = true)
    (ih : ∀ {coefficient scale : Nat} {point seen : Bool}, coefficient < Nat.pow 2 96 →
      scale ≤ 28 → (point = false → scale = 0) →
        Reads coefficient scale point seen cs (readParts? coefficient scale point seen cs))
    (hcoefficient : coefficient < Nat.pow 2 96) (hscale : scale ≤ 28)
    (hpoint : point = false → scale = 0) :
    Reads coefficient scale point seen (d :: cs)
      (readParts? coefficient scale point seen (d :: cs)) := by
  rw [readParts?, if_pos hd]
  dsimp only
  by_cases hlast : (point && scale == maxScale) = true
  · rw [if_pos hlast]
    rw [Bool.and_eq_true, beq_iff_eq] at hlast
    obtain ⟨rfl, rfl⟩ := hlast
    exact reads_roundOff? hd hcoefficient hscale (by simp [maxScale])
  rw [if_neg hlast]
  split
  · next hnext =>
      refine (ih hnext ?_ ?_).congr (continues_digit hd) (numberOf_digit _ _ hd)
      · cases point with
        | false => simpa using hscale
        | true =>
            simp only [Bool.true_and, beq_iff_eq, maxScale] at hlast
            simp only [if_true]
            omega
      · rintro rfl
        simpa using hpoint
  · next hfull =>
      rw [Nat.not_lt] at hfull
      cases point with
      | true => exact reads_roundOff? hd hcoefficient hscale fun _ => hfull
      | false =>
          -- the digits in front of the point are too many
          obtain rfl := hpoint rfl
          refine ⟨fun parts hparts => (by cases hparts), fun _ hlt => absurd hlt ?_⟩
          rw [numberOf_digit _ _ hd]
          exact not_lt_decimalLimit_of_le hfull (le_numberOf _ cs)

/-- **Reading digits.** From any state, what is read stands for the number that the characters
write, and every number that fits is read. -/
theorem reads_readParts? (cs : List Char) : ∀ {coefficient scale : Nat} {point seen : Bool},
    coefficient < Nat.pow 2 96 → scale ≤ 28 → (point = false → scale = 0) →
      Reads coefficient scale point seen cs (readParts? coefficient scale point seen cs) := by
  induction cs with
  | nil =>
      intro coefficient scale point seen hcoefficient hscale _
      exact reads_nil hcoefficient hscale
  | cons d cs ih =>
      intro coefficient scale point seen hcoefficient hscale hpoint
      by_cases hd : d.isDigit = true
      · exact reads_digit hd ih hcoefficient hscale hpoint
      rw [readParts?, if_neg hd]
      split_ifs with hdot hscore hlast
      · obtain ⟨rfl, rfl⟩ := hdot
        exact (ih hcoefficient hscale (by simp)).congr continues_point (numberOf_point _ _)
      · obtain ⟨rfl, rfl⟩ := hscore
        simp only [Bool.and_eq_true, beq_iff_eq, Bool.not_eq_true', maxScale] at hlast
        obtain ⟨⟨rfl, rfl⟩, hshort⟩ := hlast
        exact reads_score hshort
      · obtain ⟨rfl, rfl⟩ := hscore
        exact (ih hcoefficient hscale hpoint).congr continues_score (numberOf_score _ _)
      · exact reads_none (not_continues (by simpa using hd) hdot hscore)

end

end Criteria.Number.Decimal
