import Criteria.Proofs.Number.Shortest
import Criteria.Proofs.Payload.Range
import Mathlib.Tactic.NormNum

set_option autoImplicit false

/-! # Numbers in texts

Integers and doubles are read from texts of a declared form: `WrittenInt` and `WrittenFloat` say
which characters stand where and which number they write, with no reference to a reader. An integer
is read if it fits a word (`exists_readWord?_iff`). A number is read as a finite double if it is
below `overflowLimit`, half a step above the largest one (`exists_finite_iff`). -/

namespace Criteria.Number

open Payload (Digits Power takeDigits_of_isDigit startsWithDigit)

/-! ## Signs -/

/-- A sign, or none. -/
def IsSign (sign : List Char) : Prop := sign = [] ∨ sign = ['+'] ∨ sign = ['-']

theorem isSign_nil : IsSign [] := Or.inl rfl

theorem takeSign_append {sign cs : List Char} (hsign : IsSign sign)
    (hcs : ∀ c ∈ cs.head?, c ≠ '+' ∧ c ≠ '-') :
    takeSign (sign ++ cs) = (decide (sign = ['-']), cs) := by
  rcases hsign with rfl | rfl | rfl
  · rw [List.nil_append]
    unfold takeSign
    split
    · simp at hcs
    · simp at hcs
    · rfl
  · rfl
  · rfl

theorem exists_sign (cs : List Char) :
    ∃ sign, IsSign sign ∧ cs = sign ++ (takeSign cs).2 ∧
      (takeSign cs).1 = decide (sign = ['-']) := by
  unfold takeSign
  split
  · exact ⟨['-'], Or.inr (Or.inr rfl), rfl, rfl⟩
  · exact ⟨['+'], Or.inr (Or.inl rfl), rfl, rfl⟩
  · exact ⟨[], Or.inl rfl, rfl, rfl⟩

theorem ne_sign_of_isDigit {c : Char} (h : c.isDigit = true) : c ≠ '+' ∧ c ≠ '-' := by
  constructor <;> rintro rfl <;> exact absurd h (by decide)

/-! ## Integers -/

/-- An integer as a text writes it. -/
structure WrittenInt where
  sign : List Char
  sign_eq : IsSign sign
  digits : Digits

namespace WrittenInt

/-- The characters of the integer. -/
def chars (w : WrittenInt) : List Char := w.sign ++ w.digits.chars

/-- The integer. -/
def value (w : WrittenInt) : Int :=
  if w.sign = ['-'] then -(digitsValue w.digits.chars : Int) else digitsValue w.digits.chars

end WrittenInt

theorem readNat?_eq_some_iff {cs : List Char} {n : Nat} :
    readNat? cs = some n ↔ ∃ d : Digits, d.chars = cs ∧ digitsValue d.chars = n := by
  unfold readNat?
  constructor
  · intro h
    split_ifs at h with hform
    rw [Bool.or_eq_true, not_or] at hform
    refine ⟨⟨cs, ?_, ?_⟩, rfl, Option.some.inj h⟩
    · simpa using hform.1
    · simpa using hform.2
  · rintro ⟨d, rfl, rfl⟩
    rw [if_neg]
    simp [d.ne_nil, List.all_eq_true.2 d.isDigit]

theorem head?_digits (d : Digits) : ∀ c ∈ d.chars.head?, c ≠ '+' ∧ c ≠ '-' := by
  intro c hc
  exact ne_sign_of_isDigit (d.isDigit c (List.mem_of_mem_head? hc))

theorem readInt?_eq (cs : List Char) :
    readInt? cs = (readNat? (takeSign cs).2).map fun n : Nat =>
      if (takeSign cs).1 then -(n : Int) else (n : Int) := by
  unfold readInt?
  rcases takeSign cs with ⟨negative, digits⟩
  dsimp only
  cases readNat? digits <;> rfl

theorem readInt?_eq_some_iff {cs : List Char} {i : Int} :
    readInt? cs = some i ↔ ∃ w : WrittenInt, w.chars = cs ∧ w.value = i := by
  constructor
  · intro h
    obtain ⟨sign, hsign, hcs, hnegative⟩ := exists_sign cs
    rw [readInt?_eq] at h
    obtain ⟨n, hn, rfl⟩ := Option.map_eq_some_iff.1 h
    obtain ⟨d, hd, rfl⟩ := readNat?_eq_some_iff.1 hn
    refine ⟨⟨sign, hsign, d⟩, ?_, ?_⟩
    · rw [WrittenInt.chars, hcs, hd]
    · simp [WrittenInt.value, hnegative]
  · rintro ⟨w, rfl, rfl⟩
    have hdigits : readNat? w.digits.chars = some (digitsValue w.digits.chars) :=
      readNat?_eq_some_iff.2 ⟨w.digits, rfl, rfl⟩
    rw [readInt?_eq, WrittenInt.chars, takeSign_append w.sign_eq (head?_digits w.digits)]
    simp [hdigits, WrittenInt.value]

/-- A text is read as a word if it writes an integer that fits one. -/
theorem exists_readWord?_iff (cs : List Char) :
    (∃ i, readWord? cs = some i) ↔ ∃ w : WrittenInt, w.chars = cs ∧ FitsWord w.value := by
  constructor
  · rintro ⟨i, hi⟩
    obtain ⟨n, hn, hw⟩ := Option.bind_eq_some_iff.1 hi
    obtain ⟨w, hchars, rfl⟩ := readInt?_eq_some_iff.1 hn
    refine ⟨w, hchars, ?_⟩
    by_contra hfits
    rw [word?, if_neg hfits] at hw
    cases hw
  · rintro ⟨w, hchars, hfits⟩
    have hread : readInt? cs = some w.value := readInt?_eq_some_iff.2 ⟨w, hchars, rfl⟩
    exact ⟨Int64.ofInt w.value, by rw [readWord?, hread, Option.bind_some, word?, if_pos hfits]⟩

end Criteria.Number

namespace Criteria.Number.Binary64

open Payload (Digits Power takeDigits_of_isDigit startsWithDigit)

/-! ## Numbers in the range of doubles -/

/-- The least number that is rounded past the largest double. -/
def overflowLimit : Nat := (Nat.pow 2 54 - 1) * Nat.pow 2 970

theorem roundDiv_lt_iff {num den tie : Nat} (hden : 0 < den)
    (htie : 2 * tie = (2 ^ 54 - 1) * den) : roundDiv num den < 2 ^ 53 ↔ num < tie := by
  have hpow : 2 * 2 ^ 53 = 2 ^ 54 - 1 + 1 := by norm_num
  have hhalf : 2 * (2 ^ 53 * den) = 2 * tie + den := by
    rw [htie, ← Nat.mul_assoc, ← Nat.succ_mul, hpow]
  constructor
  · intro hlt
    by_contra hge
    -- the tie itself goes to the even whole number
    have heven : roundDiv tie den = 2 ^ 53 := by
      refine roundDiv_eq hden hhalf.le ?_ ?_
      · rw [hhalf]
        exact Nat.le_add_right_of_le (Nat.le_add_right _ _)
      · intro hodd
        exact absurd hodd (by decide)
    have hmono := roundDiv_mono hden (Nat.not_lt.1 hge)
    rw [heven] at hmono
    exact Nat.not_lt.2 hmono hlt
  · intro hlt
    have hnear := (roundDiv_near hden num).1
    refine Nat.lt_of_mul_lt_mul_right (a := den) ?_
    linarith

/-- Rounding stays below the limit for just the quotients that are less than half a step above the
largest double. -/
theorem roundedUnits_lt_iff {num den t : Nat} (hden : 0 < den) (ht : 54 + t = 2098) :
    roundedUnits num den < unitsLimit ↔ num < (2 ^ 54 - 1) * (2 ^ t * den) := by
  have hupper := lt_dropped hden num
  have hlower : 0 < dropped num den → _ := le_of_dropped_pos hden
  have hnormal : 0 < dropped num den → 2 ^ 52 ≤ _ := le_mantissa hden
  have hmantissa := mantissa_le hden num
  rw [roundedUnits]
  rcases Nat.lt_trichotomy (dropped num den) (t + 1) with hbelow | heq | habove
  · have hpow : 2 ^ dropped num den ≤ 2 ^ t :=
      Nat.pow_le_pow_right (by decide) (Nat.le_of_lt_succ hbelow)
    refine iff_of_true ?_ ?_
    · rw [unitsLimit_eq ht]
      refine Nat.lt_of_le_of_lt (Nat.mul_le_mul hmantissa hpow) ?_
      exact Nat.mul_lt_mul_of_pos_right (by decide) (Nat.pow_pos (by decide))
    · refine Nat.lt_of_lt_of_le hupper ?_
      rw [Nat.pow_add, Nat.mul_comm (2 ^ dropped num den), Nat.mul_assoc]
      exact Nat.mul_le_mul (by norm_num) (Nat.mul_le_mul_right den hpow)
  · have hpow : 0 < Nat.pow 2 (t + 1) := Nat.pow_pos (by decide)
    have hlimit : unitsLimit = 2 ^ 53 * Nat.pow 2 (t + 1) := unitsLimit_eq (by omega)
    rw [hlimit, heq, Nat.mul_lt_mul_right hpow]
    refine roundDiv_lt_iff (Nat.mul_pos hden hpow) ?_
    rw [Nat.pow_eq, Nat.pow_succ]
    ring
  · have hpow : 2 ^ (t + 54) ≤ 2 ^ (dropped num den + 52) :=
      Nat.pow_le_pow_right (by decide) (by omega)
    refine iff_of_false (Nat.not_lt.2 ?_) (Nat.not_lt.2 ?_)
    · exact unitsLimit_le_mul_pow (hnormal (by omega)) (Nat.succ_le_of_lt habove) (by omega)
    · refine Nat.le_trans ?_ (hlower (by omega))
      have hmul := Nat.mul_le_mul_right den hpow
      rw [Nat.pow_add, Nat.mul_comm (2 ^ t), Nat.mul_assoc] at hmul
      exact Nat.le_trans (Nat.mul_le_mul_right _ (by decide)) hmul

theorem overflowUnits_eq {t : Nat} (h : t = 2044) :
    overflowLimit * unitsPerOne = (2 ^ 54 - 1) * Nat.pow 2 t := by
  subst h
  decide +kernel

theorem isFinite_round_iff (negative : Bool) {num den : Nat} (hden : 0 < den) :
    (round negative num den).isFinite = true ↔ num < overflowLimit * unitsPerOne * den := by
  obtain ⟨t, ht⟩ : ∃ t, t = 2044 := ⟨_, rfl⟩
  rw [(hasUnits_round negative hden num).isFinite_eq, decide_eq_true_eq, overflowUnits_eq ht,
    Nat.mul_assoc]
  exact roundedUnits_lt_iff hden (by omega)

theorem one_lt_overflowLimit : 1 < overflowLimit := by decide +kernel

theorem overflowLimit_le : overflowLimit ≤ 10 ^ 310 := by decide +kernel

/-- The digits of a number show its size. -/
theorem pow_pred_length_le {n : Nat} (h : 0 < n) : 10 ^ ((natDigits n).length - 1) ≤ n := by
  rcases Nat.eq_zero_or_pos ((natDigits n).length - 1) with hzero | hpos
  · rw [hzero]
    exact h
  · exact pow_le_of_lt_length hpos (by omega)

/-- A decimal number is rounded to a finite double if it is below the limit. -/
theorem isFinite_ofScientific_iff (negative : Bool) (digits : Nat) (exponent : Int) :
    (ofScientific negative digits exponent).isFinite = true ↔
      (digits * 10 ^ exponent : ℚ) < overflowLimit := by
  have hten : (0 : ℚ) < 10 ^ exponent := zpow_pos (by norm_num) exponent
  have hone : (1 : ℚ) < overflowLimit := by exact_mod_cast one_lt_overflowLimit
  have hlength : (Nat.toDigits 10 digits).length = (natDigits digits).length := rfl
  rw [ofScientific, hlength]
  by_cases hzero : digits = 0
  · rw [if_pos (Or.inl hzero), hzero, Nat.cast_zero, zero_mul]
    exact iff_of_true rfl (zero_lt_one.trans hone)
  have hlower : ((10 : ℚ) ^ ((natDigits digits).length - 1 : ℕ)) * 10 ^ exponent ≤
      digits * 10 ^ exponent := by
    refine mul_le_mul_of_nonneg_right ?_ hten.le
    exact_mod_cast pow_pred_length_le (Nat.pos_of_ne_zero hzero)
  have hupper : (digits * 10 ^ exponent : ℚ) ≤ 10 ^ (natDigits digits).length * 10 ^ exponent := by
    refine mul_le_mul_of_nonneg_right ?_ hten.le
    exact_mod_cast (lt_pow_length digits).le
  rw [← zpow_natCast, ← zpow_add₀ (by norm_num)] at hlower hupper
  split_ifs with hsmall hlarge hexponent
  · -- such a number is less than one
    refine iff_of_true rfl (lt_of_le_of_lt (hupper.trans ?_) hone)
    exact zpow_le_one_of_nonpos₀ (by norm_num) (by omega)
  · refine iff_of_false (by simp [isFinite]) (not_lt.2 (le_trans ?_ hlower))
    have hpow : (overflowLimit : ℚ) ≤ 10 ^ (310 : ℤ) := by exact_mod_cast overflowLimit_le
    exact hpow.trans (zpow_le_zpow_right₀ (by norm_num) (by omega))
  · obtain ⟨k, rfl⟩ := Int.eq_ofNat_of_zero_le hexponent
    rw [isFinite_round_iff negative Nat.one_pos, Int.toNat_natCast, Nat.mul_one,
      Nat.mul_lt_mul_right unitsPerOne_pos, zpow_natCast]
    exact_mod_cast Iff.rfl
  · obtain ⟨k, hk⟩ := Int.eq_ofNat_of_zero_le (show 0 ≤ -exponent by omega)
    obtain rfl : exponent = -(k : ℤ) := by omega
    have hpos : (0 : ℚ) < 10 ^ k := by positivity
    have hden : 0 < Nat.pow 10 k := Nat.pow_pos (by decide)
    rw [hk, Int.toNat_natCast, isFinite_round_iff negative hden, Nat.mul_right_comm,
      Nat.mul_lt_mul_right unitsPerOne_pos, zpow_neg, zpow_natCast, ← div_eq_mul_inv,
      div_lt_iff₀ hpos]
    exact_mod_cast Iff.rfl

/-! ## Doubles -/

/-- A number as a text writes it for a double: at least one digit in front of or behind a point. -/
structure WrittenFloat where
  sign : List Char
  sign_eq : IsSign sign
  whole : List Char
  fraction : Option (List Char)
  isDigit : ∀ c ∈ whole ++ fraction.getD [], c.isDigit = true
  ne_nil : whole ++ fraction.getD [] ≠ []
  power : Option Power

/-- The text of a point and what is behind it. -/
def pointChars : Option (List Char) → List Char
  | none => []
  | some ds => '.' :: ds

namespace WrittenFloat

/-- The text of a number behind its sign. -/
def body (w : WrittenFloat) : List Char :=
  w.whole ++ (pointChars w.fraction ++ Power.chars w.power)

/-- The text of a number. -/
def chars (w : WrittenFloat) : List Char := w.sign ++ w.body

/-- The power of ten of the last digit. -/
def exponent (w : WrittenFloat) : Int := Power.exponent w.power - (w.fraction.getD []).length

/-- The size of the number. -/
def magnitude (w : WrittenFloat) : ℚ :=
  digitsValue (w.whole ++ w.fraction.getD []) * 10 ^ w.exponent

end WrittenFloat

theorem readExponent?_eq_some_iff {cs : List Char} {e : Int} :
    readExponent? cs = some e ↔ ∃ p, Power.chars p = cs ∧ Power.exponent p = e := by
  constructor
  · intro h
    cases cs with
    | nil => exact ⟨none, rfl, Option.some.inj h⟩
    | cons mark cs =>
        rw [readExponent?] at h
        split_ifs at h with hmark
        obtain ⟨w, rfl, rfl⟩ := readInt?_eq_some_iff.1 h
        exact ⟨some ⟨mark, hmark, w.sign, w.sign_eq, w.digits⟩, rfl, rfl⟩
  · rintro ⟨p, rfl, rfl⟩
    cases p with
    | none => rfl
    | some p =>
        rw [Power.chars, readExponent?, if_pos p.mark_eq]
        exact readInt?_eq_some_iff.2 ⟨⟨p.sign, p.sign_eq, p.digits⟩, rfl, rfl⟩

theorem startsWithDigit_powerChars (p : Option Power) :
    startsWithDigit (Power.chars p) = false := by
  have hends : Payload.Ends [] := by simp [Payload.Ends]
  simpa using Power.startsWithDigit_chars p hends

theorem takeDigits_point {ds rest : List Char} (hds : ∀ c ∈ ds, c.isDigit = true)
    {fraction : Option (List Char)} (hrest : startsWithDigit rest = false) :
    takeDigits (ds ++ (pointChars fraction ++ rest)) = (ds, pointChars fraction ++ rest) := by
  refine takeDigits_of_isDigit hds ?_
  cases fraction with
  | none => exact hrest
  | some f => rfl

/-- The digits behind a point, and what follows them. -/
theorem takeDecimals_append {p : Option Power} {fraction : Option (List Char)}
    (hdigits : ∀ c ∈ fraction.getD [], c.isDigit = true) :
    takeDecimals (pointChars fraction ++ Power.chars p) = (fraction.getD [], Power.chars p) := by
  cases fraction with
  | some f => exact takeDigits_of_isDigit hdigits (startsWithDigit_powerChars p)
  | none =>
      cases p with
      | none => rfl
      | some p =>
          rcases p.mark_eq with hmark | hmark
          · simp [pointChars, Power.chars, takeDecimals, hmark]
          · simp [pointChars, Power.chars, takeDecimals, hmark]

theorem isDigit_takeDigits (cs : List Char) : ∀ c ∈ (takeDigits cs).1, c.isDigit = true :=
  List.all_eq_true.1 List.all_takeWhile

theorem exists_takeDecimals (cs : List Char) :
    ∃ fraction, cs = pointChars fraction ++ (takeDecimals cs).2 ∧
      (takeDecimals cs).1 = fraction.getD [] ∧ ∀ c ∈ fraction.getD [], c.isDigit = true := by
  unfold takeDecimals
  split
  · next cs =>
      refine ⟨some (takeDigits cs).1, ?_, rfl, isDigit_takeDigits cs⟩
      rw [pointChars, List.cons_append, takeDigits_append]
  · exact ⟨none, rfl, rfl, by simp⟩

/-- The reader takes a written number apart. -/
theorem readNumber?_body (negative : Bool) (w : WrittenFloat) :
    readNumber? negative w.body =
      some (ofScientific negative (digitsValue (w.whole ++ w.fraction.getD [])) w.exponent) := by
  have hwhole : ∀ c ∈ w.whole, c.isDigit = true :=
    fun c hc => w.isDigit c (List.mem_append_left _ hc)
  have hfraction : ∀ c ∈ w.fraction.getD [], c.isDigit = true :=
    fun c hc => w.isDigit c (List.mem_append_right _ hc)
  have hexponent : readExponent? (Power.chars w.power) = some (Power.exponent w.power) :=
    readExponent?_eq_some_iff.2 ⟨w.power, rfl, rfl⟩
  have hsome : ¬ (w.whole.isEmpty && (w.fraction.getD []).isEmpty) = true := by
    rw [Bool.and_eq_true, List.isEmpty_iff, List.isEmpty_iff, ← List.append_eq_nil_iff]
    exact w.ne_nil
  rw [readNumber?, WrittenFloat.body, takeDigits_point hwhole (startsWithDigit_powerChars w.power)]
  dsimp only
  rw [takeDecimals_append hfraction]
  dsimp only
  rw [if_neg hsome, hexponent]
  rfl

/-- What the reader takes apart is a written number. -/
theorem exists_body_of_readNumber? {negative : Bool} {cs : List Char} {x : Binary64}
    (h : readNumber? negative cs = some x) {sign : List Char} (hsign : IsSign sign) :
    ∃ w : WrittenFloat, w.sign = sign ∧ w.body = cs := by
  have hcs := takeDigits_append cs
  have hwhole := isDigit_takeDigits cs
  obtain ⟨fraction, hrest, hvalue, hfraction⟩ := exists_takeDecimals (takeDigits cs).2
  rw [readNumber?] at h
  dsimp only at h
  split_ifs at h with hsome
  obtain ⟨e, he, -⟩ := Option.map_eq_some_iff.1 h
  obtain ⟨p, hp, -⟩ := readExponent?_eq_some_iff.1 he
  rw [hvalue, Bool.and_eq_true, List.isEmpty_iff, List.isEmpty_iff, ← List.append_eq_nil_iff]
    at hsome
  refine ⟨⟨sign, hsign, (takeDigits cs).1, fraction, ?_, hsome, p⟩, rfl, ?_⟩
  · intro c hc
    rcases List.mem_append.1 hc with hc | hc
    · exact hwhole c hc
    · exact hfraction c hc
  · rw [WrittenFloat.body, hp, ← hrest, hcs]

theorem head?_body (w : WrittenFloat) : ∀ c ∈ w.body.head?, c.isDigit = true ∨ c = '.' := by
  intro c hc
  cases hwhole : w.whole with
  | cons d ds =>
      rw [WrittenFloat.body, hwhole] at hc
      simp only [List.cons_append, List.head?_cons, Option.mem_some_iff] at hc
      exact Or.inl (w.isDigit c (by simp [hwhole, hc]))
  | nil =>
      cases hfraction : w.fraction with
      | none => exact absurd (by simp [hwhole, hfraction]) w.ne_nil
      | some f =>
          rw [WrittenFloat.body, hwhole, hfraction] at hc
          simp only [pointChars, List.nil_append, List.cons_append, List.head?_cons,
            Option.mem_some_iff] at hc
          exact Or.inr hc.symm

theorem toLower_eq {c : Char} (h : c.isDigit = true ∨ c = '.') : c.toLower = c := by
  rcases h with hdigit | rfl
  · simp only [Char.isDigit, ge_iff_le, Bool.and_eq_true, decide_eq_true_eq] at hdigit
    unfold Char.toLower
    rw [dif_neg]
    rintro ⟨hlower, -⟩
    exact absurd (UInt32.le_trans hlower hdigit.2) (by decide)
  · decide

/-- A text is read as a finite double if it writes a number below the limit. -/
theorem exists_finite_iff (cs : List Char) :
    (∃ x, (read? cs).filter isFinite = some x) ↔
      ∃ w : WrittenFloat, w.chars = cs ∧ w.magnitude < overflowLimit := by
  constructor
  · rintro ⟨x, hx⟩
    obtain ⟨hread, hfinite⟩ := Option.filter_eq_some_iff.1 hx
    obtain ⟨sign, hsign, hcs, -⟩ := exists_sign cs
    rw [read?] at hread
    dsimp only at hread
    split_ifs at hread with hinf hnan
    · cases hread
      cases hfinite
    · cases hread
      cases hfinite
    · obtain ⟨w, rfl, hbody⟩ := exists_body_of_readNumber? hread hsign
      refine ⟨w, by rw [WrittenFloat.chars, hbody, ← hcs], ?_⟩
      rw [← hbody, readNumber?_body] at hread
      obtain rfl := Option.some.inj hread
      exact (isFinite_ofScientific_iff _ _ _).1 hfinite
  · rintro ⟨w, rfl, hlimit⟩
    have hsign : ∀ c ∈ w.body.head?, c ≠ '+' ∧ c ≠ '-' := by
      intro c hc
      rcases head?_body w c hc with hdigit | rfl
      · exact ne_sign_of_isDigit hdigit
      · decide
    have hword : ∀ c cs, c.isDigit = false ∧ c ≠ '.' → w.body.map Char.toLower ≠ c :: cs := by
      intro c cs hc heq
      obtain ⟨d, ds, hbody, rfl, -⟩ := List.map_eq_cons_iff.1 heq
      have hd := head?_body w d (by simp [hbody])
      rw [toLower_eq hd] at hc
      rcases hd with hdigit | rfl
      · exact absurd (hdigit.symm.trans hc.1) (by decide)
      · exact hc.2 rfl
    refine ⟨_, Option.filter_eq_some_iff.2
      ⟨?_, (isFinite_ofScientific_iff (decide (w.sign = ['-'])) _ _).2 hlimit⟩⟩
    rw [read?, WrittenFloat.chars, takeSign_append w.sign_eq hsign]
    dsimp only
    rw [if_neg, if_neg, readNumber?_body]
    · exact hword _ _ (by decide)
    · rw [not_or]
      exact ⟨hword _ _ (by decide), hword _ _ (by decide)⟩

end Criteria.Number.Binary64
