import Criteria.Proofs.Payload.Token

set_option autoImplicit false

/-! # Numbers of a payload

A number is written as digits without leading zeros, perhaps with a fraction and a power of ten.
What it stands for depends on its digits alone (`Numeral.numeric?`): an integer of at most 64 bits
is itself, and any other number is the double that its first digits and a power of ten come to, or
nothing, where that is beyond the largest double. -/

namespace Criteria.Payload

open Number

/-! ## Written numbers -/

/-- At least one decimal digit. -/
structure Digits where
  chars : List Char
  ne_nil : chars ≠ []
  isDigit : ∀ c ∈ chars, c.isDigit = true

/-- A power of ten behind a number. -/
structure Power where
  mark : Char
  mark_eq : mark = 'e' ∨ mark = 'E'
  sign : List Char
  sign_eq : sign = [] ∨ sign = ['+'] ∨ sign = ['-']
  digits : Digits

/-- A number as it is written. -/
structure Numeral where
  negative : Bool
  whole : Digits
  noLeadingZero : whole.chars = ['0'] ∨ whole.chars.head? ≠ some '0'
  fraction : Option Digits
  power : Option Power

/-- The text of a power of ten. -/
def Power.chars : Option Power → List Char
  | none => []
  | some p => p.mark :: (p.sign ++ p.digits.chars)

/-- The text of a fraction. -/
def Digits.fractionChars : Option Digits → List Char
  | none => []
  | some f => '.' :: f.chars

namespace Numeral

/-- The text of a number behind its sign. -/
def body (n : Numeral) : List Char :=
  n.whole.chars ++ (Digits.fractionChars n.fraction ++ Power.chars n.power)

/-- The text of a number. -/
def chars (n : Numeral) : List Char := if n.negative then '-' :: n.body else n.body

end Numeral

/-! ## What numbers stand for -/

/-- A significand times a power of ten, as a double with a sign. -/
def scaled? (negative : Bool) (significand : Nat) (exponent : Int) : Option Numeric :=
  (scaleByTen? 4 (Binary64.ofNat significand) exponent).map fun x =>
    .float (if negative then x.neg else x)

/-- A significand times the power of ten at its point, scaled by a written power. A power of more
than 31 bits is out of range or makes the number zero. -/
def scaledBy? (negative : Bool) (significand : Nat) (point : Int) (down : Bool) (exponent : Nat) :
    Option Numeric :=
  if exponent < 2147483648 then
    scaled? negative significand (if down then point - exponent else point + exponent)
  else if significand ≠ 0 ∧ down = false then none
  else some (.float (Binary64.zero negative))

/-- A significand times the power of ten at its point, with the power behind it, if there is one. -/
def powered? (negative : Bool) (significand : Nat) (point : Int) : Option Power → Option Numeric
  | none => scaled? negative significand point
  | some p =>
      scaledBy? negative significand point (p.sign == ['-']) (Nat.ofDigitChars 10 p.digits.chars 0)

/-- An integer, if all its digits fit 64 bits, and else a double. -/
def integer? (negative : Bool) (significand dropped : Nat) : Option Numeric :=
  if dropped ≠ 0 then scaled? negative significand dropped
  else if negative = false then some (.int significand)
  else if significand = 0 ∨ 9223372036854775808 < significand then
    some (.float (Binary64.ofNat significand).neg)
  else some (.int (-(significand : Int)))

/-- What a number stands for. -/
def Numeral.numeric? (n : Numeral) : Option Numeric :=
  let whole := takeFitting 0 n.whole.chars
  match n.fraction, n.power with
  | none, none => integer? n.negative whole.1 whole.2.length
  | none, some p => powered? n.negative whole.1 whole.2.length (some p)
  | some f, p =>
      let all := takeFitting whole.1 f.chars
      let taken := f.chars.length - all.2.length
      powered? n.negative all.1 ((whole.2.length : Int) - taken) p

/-! ## Digits -/

theorem takeDigits_of_isDigit {ds rest : List Char} (hds : ∀ c ∈ ds, c.isDigit = true)
    (hrest : startsWithDigit rest = false) : takeDigits (ds ++ rest) = (ds, rest) := by
  have htake : rest.takeWhile Char.isDigit = [] := by
    cases rest with
    | nil => rfl
    | cons c cs => exact List.takeWhile_cons_of_neg (by simpa [startsWithDigit] using hrest)
  have hdrop : rest.dropWhile Char.isDigit = rest := by
    cases rest with
    | nil => rfl
    | cons c cs => exact List.dropWhile_cons_of_neg (by simpa [startsWithDigit] using hrest)
  rw [takeDigits, List.takeWhile_append_of_pos hds, List.dropWhile_append_of_pos hds, htake, hdrop,
    List.append_nil]

theorem takeFitting_append (significand : Nat) (ds : List Char) {rest : List Char}
    (hrest : startsWithDigit rest = false) :
    takeFitting significand (ds ++ rest) =
      ((takeFitting significand ds).1, (takeFitting significand ds).2 ++ rest) := by
  induction ds generalizing significand with
  | nil =>
      cases rest with
      | nil => rfl
      | cons c cs =>
          have hc : c.isDigit = false := hrest
          simp [takeFitting, hc]
  | cons d ds ih =>
      rw [List.cons_append, takeFitting, takeFitting]
      split
      · dsimp only
        split
        · exact ih _
        · rfl
      · rfl

theorem isDigit_of_mem_takeFitting (significand : Nat) {ds : List Char}
    (hds : ∀ c ∈ ds, c.isDigit = true) :
    ∀ c ∈ (takeFitting significand ds).2, c.isDigit = true := by
  induction ds generalizing significand with
  | nil => simp [takeFitting]
  | cons d ds ih =>
      rw [takeFitting, if_pos (hds d (by simp))]
      dsimp only
      split
      · exact ih _ fun c hc => hds c (List.mem_cons_of_mem d hc)
      · exact hds

theorem le_ofDigitChars (ds : List Char) (init : Nat) : init ≤ Nat.ofDigitChars 10 ds init := by
  induction ds generalizing init with
  | nil => simp
  | cons d ds ih =>
      rw [Nat.ofDigitChars_cons]
      exact Nat.le_trans (by omega) (ih _)

theorem Digits.eq_cons (d : Digits) (rest : List Char) :
    ∃ c cs, d.chars ++ rest = c :: cs ∧ c.isDigit = true := by
  cases hd : d.chars with
  | nil => exact absurd hd d.ne_nil
  | cons c cs => exact ⟨c, cs ++ rest, rfl, d.isDigit c (by simp [hd])⟩

theorem takeSign_of_isDigit {c : Char} (h : c.isDigit = true) (cs : List Char) :
    takeSign (c :: cs) = (false, c :: cs) := by
  unfold takeSign
  split
  · next heq =>
      cases heq
      exact absurd h (by decide)
  · next heq =>
      cases heq
      exact absurd h (by decide)
  · rfl

theorem Power.takeSign_append (p : Power) (rest : List Char) :
    takeSign (p.sign ++ (p.digits.chars ++ rest)) =
      (p.sign == ['-'], p.digits.chars ++ rest) := by
  rcases p.sign_eq with h | h | h
  · obtain ⟨c, cs, hcons, hc⟩ := p.digits.eq_cons rest
    rw [h, hcons]
    exact takeSign_of_isDigit hc cs
  · rw [h]
    rfl
  · rw [h]
    rfl

theorem Power.startsWithDigit_chars (p : Option Power) {rest : List Char} (hrest : Ends rest) :
    startsWithDigit (Power.chars p ++ rest) = false := by
  cases p with
  | none => exact hrest.startsWithDigit
  | some p =>
      rcases p.mark_eq with h | h
      · simp [Power.chars, startsWithDigit, h]
      · simp [Power.chars, startsWithDigit, h]

/-! ## Reading -/

section

variable (negative : Bool) (significand : Nat) {rest : List Char}

theorem settles_finishFloat (exponent : Int) :
    Settles (scaled? negative significand exponent)
      (finishFloat negative significand exponent rest) rest := by
  unfold scaled? finishFloat
  cases scaleByTen? 4 (Binary64.ofNat significand) exponent with
  | some x => rfl
  | none => exact ⟨_, rfl⟩

theorem settles_readExponentDigits (point : Int) (down : Bool) {ds : List Char} {exponent : Nat}
    (hds : ∀ c ∈ ds, c.isDigit = true) (hrest : startsWithDigit rest = false)
    (hexponent : exponent < 2147483648) :
    Settles (scaledBy? negative significand point down (Nat.ofDigitChars 10 ds exponent))
      (readExponentDigits negative significand point down exponent (ds ++ rest)) rest := by
  induction ds generalizing exponent with
  | nil =>
      rw [Nat.ofDigitChars_nil, scaledBy?, if_pos hexponent]
      cases rest with
      | nil => exact settles_finishFloat negative significand _
      | cons c cs =>
          have hc : ¬ c.isDigit = true := by simpa [startsWithDigit] using hrest
          rw [List.nil_append, readExponentDigits, if_neg hc]
          exact settles_finishFloat negative significand _
  | cons d ds ih =>
      have hd : d.isDigit = true := hds d (by simp)
      have htail : ∀ c ∈ ds, c.isDigit = true := by
        intro c hc
        exact hds c (List.mem_cons_of_mem d hc)
      rw [Nat.ofDigitChars_cons, Nat.mul_comm, List.cons_append, readExponentDigits, if_pos hd]
      dsimp only
      split
      · next hnext => exact ih htail hnext
      · next hnext =>
          -- further digits make the power larger only
          have hlarge := le_ofDigitChars ds (exponent * 10 + (d.toNat - '0'.toNat))
          rw [scaledBy?, if_neg (by omega), takeDigits_of_isDigit htail hrest]
          split
          · exact ⟨_, rfl⟩
          · rfl

theorem settles_readExponent (point : Int) (p : Power) (hrest : startsWithDigit rest = false) :
    Settles (powered? negative significand point (some p))
      (readExponent negative significand point (p.sign ++ (p.digits.chars ++ rest))) rest := by
  have hread : ∀ down, Settles
      (scaledBy? negative significand point down (Nat.ofDigitChars 10 p.digits.chars 0))
      (readExponentDigits negative significand point down 0 (p.digits.chars ++ rest)) rest := by
    intro down
    exact settles_readExponentDigits negative significand point down p.digits.isDigit hrest
      (by decide)
  obtain ⟨c, cs, hcons, hc⟩ := p.digits.eq_cons rest
  rw [readExponent, p.takeSign_append]
  rw [hcons] at hread ⊢
  simp only [if_pos hc]
  exact hread _

theorem settles_readFloatEnd (point : Int) (p : Option Power) (hrest : Ends rest) :
    Settles (powered? negative significand point p)
      (readFloatEnd negative significand point (Power.chars p ++ rest)) rest := by
  cases p with
  | none =>
      have hend : readFloatEnd negative significand point rest =
          finishFloat negative significand point rest := by
        unfold readFloatEnd
        split
        · exact absurd rfl hrest.ne.2.2.1
        · exact absurd rfl hrest.ne.2.2.2
        · rfl
      rw [Power.chars, List.nil_append, hend]
      exact settles_finishFloat negative significand point
  | some p =>
      have hread := settles_readExponent negative significand point p hrest.startsWithDigit
      rw [Power.chars, List.cons_append, List.append_assoc]
      rcases p.mark_eq with h | h
      · rw [h]
        exact hread
      · rw [h]
        exact hread

theorem settles_readFraction (point : Int) (f : Digits) (p : Option Power) (hrest : Ends rest) :
    Settles
      (powered? negative (takeFitting significand f.chars).1
        (point - (f.chars.length - (takeFitting significand f.chars).2.length : Nat)) p)
      (readFraction negative significand point (f.chars ++ (Power.chars p ++ rest))) rest := by
  have htail := Power.startsWithDigit_chars p hrest
  have hstart : startsWithDigit (f.chars ++ (Power.chars p ++ rest)) = true := by
    obtain ⟨c, cs, hcons, hc⟩ := f.eq_cons (Power.chars p ++ rest)
    rw [hcons]
    exact hc
  have htaken : ∀ ds : List Char, (f.chars ++ (Power.chars p ++ rest)).length -
      (ds ++ (Power.chars p ++ rest)).length = f.chars.length - ds.length := by
    intro ds
    simp only [List.length_append]
    omega
  rw [readFraction, if_pos hstart, takeFitting_append significand f.chars htail]
  dsimp only
  rw [takeDigits_of_isDigit (isDigit_of_mem_takeFitting _ f.isDigit) htail, htaken]
  exact settles_readFloatEnd negative _ _ p hrest

end

namespace Numeral

/-- A number that starts with zero has no other digit in front of its point. -/
theorem whole_of_zero (n : Numeral) {tail after : List Char}
    (h : n.whole.chars ++ tail = '0' :: after) : after = tail := by
  rcases n.noLeadingZero with hzero | hne
  · rw [hzero] at h
    cases h
    rfl
  · obtain ⟨d, ds, hd⟩ := List.exists_cons_of_ne_nil n.whole.ne_nil
    rw [hd] at h hne
    cases h
    exact absurd rfl hne

/-- A number that starts with zero goes on with no digit. -/
theorem not_leadingZero (n : Numeral) {tail : List Char} (htail : startsWithDigit tail = false)
    {c : Char} {after : List Char} (h : n.whole.chars ++ tail = c :: after) :
    ¬ (c = '0' ∧ startsWithDigit after = true) := by
  rintro ⟨rfl, hafter⟩
  rw [n.whole_of_zero h, htail] at hafter
  exact absurd hafter (by decide)

/-- The text behind the whole part of a number does not continue it. -/
theorem startsWithDigit_tail (n : Numeral) {rest : List Char} (hrest : Ends rest) :
    startsWithDigit (Digits.fractionChars n.fraction ++ (Power.chars n.power ++ rest)) = false := by
  cases n.fraction with
  | none => exact Power.startsWithDigit_chars n.power hrest
  | some f => rfl

/-- A reader of numbers settles every number, whatever follows it. -/
theorem settles_readNumber (n : Numeral) {rest : List Char} (hrest : Ends rest) :
    Settles n.numeric? (readNumber n.negative (n.body ++ rest)) rest := by
  have htail := n.startsWithDigit_tail hrest
  have hbody : n.body ++ rest = n.whole.chars ++
      (Digits.fractionChars n.fraction ++ (Power.chars n.power ++ rest)) := by
    simp only [body, List.append_assoc]
  obtain ⟨c, after, hcons, hc⟩ := n.whole.eq_cons
    (Digits.fractionChars n.fraction ++ (Power.chars n.power ++ rest))
  -- The digits are split in two: those that fit 64 bits, and those behind them.
  have hzero := n.not_leadingZero htail hcons
  have hdigits := isDigit_of_mem_takeFitting 0 n.whole.isDigit
  rw [hbody, hcons]
  simp only [readNumber, hc, Bool.not_true, Bool.false_eq_true, if_false, if_neg hzero]
  rw [← hcons, takeFitting_append 0 n.whole.chars htail]
  dsimp only
  rw [takeDigits_of_isDigit hdigits htail]
  dsimp only
  unfold numeric?
  cases n.fraction with
  | some f => exact settles_readFraction n.negative _ _ f n.power hrest
  | none =>
      cases n.power with
      | some p =>
          have hread := settles_readExponent n.negative (takeFitting 0 n.whole.chars).1
            (takeFitting 0 n.whole.chars).2.length p hrest.startsWithDigit
          rw [Digits.fractionChars, List.nil_append, Power.chars, List.cons_append,
            List.append_assoc]
          rcases p.mark_eq with h | h
          · rw [h]
            exact hread
          · rw [h]
            exact hread
      | none =>
          -- No point and no mark of a power stands behind the number.
          simp only [Digits.fractionChars, Power.chars, List.nil_append]
          split
          · exact absurd rfl hrest.ne.2.1
          · exact absurd rfl hrest.ne.2.2.1
          · exact absurd rfl hrest.ne.2.2.2
          · unfold integer?
            cases (takeFitting 0 n.whole.chars).2 with
            | cons d ds => exact settles_finishFloat n.negative _ _
            | nil =>
                cases n.negative with
                | false => rfl
                | true =>
                    by_cases hfloat : (takeFitting 0 n.whole.chars).1 = 0 ∨
                        9223372036854775808 < (takeFitting 0 n.whole.chars).1
                    · simp [hfloat, Settles]
                    · simp [hfloat, Settles]

end Numeral

/-! ## Skipping -/

theorem Digits.skipSomeDigits (d : Digits) {rest : List Char}
    (hrest : startsWithDigit rest = false) :
    Payload.skipSomeDigits (d.chars ++ rest) = .ok rest := by
  obtain ⟨c, cs, hcons, hc⟩ := d.eq_cons rest
  have hstart : startsWithDigit (d.chars ++ rest) = true := by
    rw [hcons]
    exact hc
  rw [Payload.skipSomeDigits, if_pos hstart, takeDigits_of_isDigit d.isDigit hrest]

theorem Power.skipExponent (p : Option Power) {rest : List Char} (hrest : Ends rest) :
    Payload.skipExponent (Power.chars p ++ rest) = .ok rest := by
  cases p with
  | none =>
      rw [Power.chars, List.nil_append]
      unfold Payload.skipExponent
      split
      · exact absurd rfl hrest.ne.2.2.1
      · exact absurd rfl hrest.ne.2.2.2
      · rfl
  | some p =>
      have hskip : Payload.skipSomeDigits (takeSign (p.sign ++ (p.digits.chars ++ rest))).2 =
          .ok rest := by
        rw [p.takeSign_append]
        exact p.digits.skipSomeDigits hrest.startsWithDigit
      rw [Power.chars, List.cons_append, List.append_assoc]
      rcases p.mark_eq with h | h
      · rw [h]
        exact hskip
      · rw [h]
        exact hskip

theorem Numeral.skipWhole (n : Numeral) {tail : List Char}
    (htail : startsWithDigit tail = false) :
    Payload.skipWhole (n.whole.chars ++ tail) = .ok tail := by
  unfold Payload.skipWhole
  split
  · next r hr =>
      rw [n.whole_of_zero hr, htail]
      rfl
  · exact n.whole.skipSomeDigits htail

theorem Digits.skipFraction (f : Option Digits) (p : Option Power) {rest : List Char}
    (hrest : Ends rest) :
    Payload.skipFraction (Digits.fractionChars f ++ (Power.chars p ++ rest)) = .ok rest := by
  have hend := Power.skipExponent p hrest
  cases f with
  | some f =>
      have hdigits := f.skipSomeDigits (Power.startsWithDigit_chars p hrest)
      show (Payload.skipSomeDigits (f.chars ++ (Power.chars p ++ rest)) >>= _) = _
      rw [hdigits]
      exact hend
  | none =>
      rw [Digits.fractionChars, List.nil_append]
      unfold Payload.skipFraction
      split
      · next r hr =>
          cases p with
          | none =>
              rw [Power.chars, List.nil_append] at hr
              rw [hr] at hrest
              exact absurd rfl hrest.ne.2.1
          | some p =>
              obtain ⟨hmark, -⟩ := List.cons.inj hr
              rcases p.mark_eq with h | h
              · exact absurd (h.symm.trans hmark) (by decide)
              · exact absurd (h.symm.trans hmark) (by decide)
      · exact hend

/-- Any number can be skipped, whether it stands for one or not. -/
theorem Numeral.skipNumber (n : Numeral) {rest : List Char} (hrest : Ends rest) :
    Payload.skipNumber (n.body ++ rest) = .ok rest := by
  rw [body, List.append_assoc, List.append_assoc, Payload.skipNumber,
    n.skipWhole (n.startsWithDigit_tail hrest)]
  exact Digits.skipFraction n.fraction n.power hrest

end Criteria.Payload
