import Criteria.Proofs.Payload.Document
import Mathlib.Data.List.Induction
import Mathlib.Data.List.TakeWhile
import Criteria.Proofs.Uuid

set_option autoImplicit false

/-! # Accepted tokens

A reader that gives a result has read a written token: the text in front of what is left is a string
(`exists_quoted_of_readChars`) or a number (`exists_numeral_of_readNumber`). Together with the
lemmas on what a reader makes of written tokens, this says of every text what its readers accept.

A reader that skips looks less closely than one that reads, so a number that is read is one that
could have been skipped (`skipNumber_of_readNumber`). -/

namespace Criteria.Payload

open Number

/-! ## Results -/

/-- A reader gives a result only where each of its steps does. -/
theorem bind_eq_ok {α β : Type} {x : Except Stop α} {f : α → Except Stop β} {b : β} :
    (x >>= f) = .ok b ↔ ∃ a, x = .ok a ∧ f a = .ok b := by
  cases x with
  | ok a => simp [bind, Except.bind]
  | error stop => simp [bind, Except.bind]

/-! ## Blanks and words -/

/-- Blanks stand in front of the next token. -/
theorem exists_gap {cs rest : List Char} (h : skipSpace cs = rest) :
    ∃ g : Gap, cs = g.chars ++ rest := by
  refine ⟨⟨cs.takeWhile isSpace, fun c hc => List.mem_takeWhile_imp hc⟩, ?_⟩
  rw [← h]
  exact List.takeWhile_append_dropWhile.symm

/-- Blanks behind blanks. -/
def Gap.append (g g' : Gap) : Gap where
  chars := g.chars ++ g'.chars
  blank := by
    intro c hc
    rcases List.mem_append.1 hc with h | h
    · exact g.blank c h
    · exact g'.blank c h

theorem eq_append_of_readWord {w cs rest : List Char} (h : readWord w cs = .ok rest) :
    cs = w ++ rest := by
  induction w generalizing cs with
  | nil =>
      cases h
      rfl
  | cons c w ih =>
      cases cs with
      | nil => cases h
      | cons d cs =>
          rw [readWord] at h
          split at h
          · next hd => rw [hd, ih h, List.cons_append]
          · cases h

/-! ## Strings -/

theorem utf8Size_of_hexValue? {c : Char} {n : Nat} (h : Text.hexValue? c = some n) :
    c.utf8Size = 1 := by
  have hascii : c.toNat ≤ 127 := by
    unfold Text.hexValue? at h
    split at h
    · next hc => exact Nat.le_trans (show c.toNat ≤ '9'.toNat from hc.2) (by decide)
    · split at h
      · next hc => exact Nat.le_trans (show c.toNat ≤ 'f'.toNat from hc.2) (by decide)
      · split at h
        · next hc => exact Nat.le_trans (show c.toNat ≤ 'F'.toNat from hc.2) (by decide)
        · cases h
  exact Char.utf8Size_eq_one_iff.2 hascii

/-- Hexadecimal digits are as many bytes as characters. -/
theorem byteLength_of_hexNumber? {cs : List Char} {n : Nat} (h : Text.hexNumber? cs = some n) :
    byteLength cs = cs.length := by
  have happend : ∀ cs c, byteLength (cs ++ [c]) = byteLength cs + c.utf8Size := by
    intro cs c
    induction cs with
    | nil => simp [byteLength]
    | cons d cs ih =>
        simp only [byteLength, List.cons_append, List.foldr_cons] at ih ⊢
        omega
  induction cs using List.reverseRecOn generalizing n with
  | nil => rfl
  | append_singleton cs c ih =>
      rw [Text.hexNumber?_concat] at h
      obtain ⟨k, hk, hv⟩ := Option.bind_eq_some_iff.1 h
      obtain ⟨v, hv, -⟩ := Option.map_eq_some_iff.1 hv
      rw [happend, ih hk, utf8Size_of_hexValue? hv, List.length_append, List.length_singleton]

theorem exists_digits_of_readHex {cs rest : List Char} {n : Nat} (h : readHex cs = .ok (n, rest)) :
    ∃ digits, cs = digits ++ rest ∧ digits.length = 4 ∧ Text.hexNumber? digits = some n := by
  rw [readHex] at h
  split at h
  · cases h
  · next hbytes =>
      split at h
      · next n' hn =>
          cases h
          refine ⟨cs.take 4, (List.take_append_drop 4 cs).symm, ?_, hn⟩
          have hlength := List.length_take_le 4 cs
          rw [byteLength_of_hexNumber? hn] at hbytes
          omega
      · cases h

theorem exists_mark_of_skipEscape {cs rest : List Char} (h : skipEscape cs = .ok rest) :
    ∃ m : Mark, '\\' :: cs = m.chars ++ rest := by
  unfold skipEscape at h
  split at h
  · cases h
  · obtain ⟨⟨n, mid⟩, hread, hmid⟩ := bind_eq_ok.1 h
    cases hmid
    obtain ⟨digits, rfl, hdigits⟩ := exists_digits_of_readHex hread
    exact ⟨.unit digits n hdigits, by simp [Mark.chars]⟩
  · split at h
    · next e he =>
        cases h
        exact ⟨.letter _ e he, rfl⟩
    · cases h

/-- Two units stand for one character, if they are its halves. -/
theorem exists_unit_of_readLowHalf {high : Nat} {cs rest : List Char} {e : Char}
    (h : readLowHalf high cs = .ok (e, rest)) : ∃ m : Mark, cs = m.chars ++ rest := by
  unfold readLowHalf at h
  split at h
  · cases h
  · cases h
  · obtain ⟨⟨n, mid⟩, hread, hmid⟩ := bind_eq_ok.1 h
    obtain ⟨digits, rfl, hdigits⟩ := exists_digits_of_readHex hread
    dsimp only at hmid
    split at hmid
    · obtain ⟨-, rfl⟩ := Prod.mk.inj (Except.ok.inj hmid)
      exact ⟨.unit digits n hdigits, by simp [Mark.chars]⟩
    · cases hmid
  · cases h
  · cases h

theorem exists_marks_of_readEscape {cs rest : List Char} {e : Char}
    (h : readEscape cs = .ok (e, rest)) : ∃ ms : List Mark, '\\' :: cs = marksChars ms ++ rest := by
  unfold readEscape at h
  split at h
  · cases h
  · obtain ⟨⟨n, mid⟩, hread, hmid⟩ := bind_eq_ok.1 h
    obtain ⟨digits, rfl, hdigits⟩ := exists_digits_of_readHex hread
    dsimp only at hmid
    split at hmid
    · cases hmid
    · split at hmid
      · obtain ⟨m, rfl⟩ := exists_unit_of_readLowHalf hmid
        exact ⟨[.unit digits n hdigits, m], by simp [marksChars, Mark.chars]⟩
      · cases hmid
        exact ⟨[.unit digits n hdigits], by simp [marksChars, Mark.chars]⟩
  · split at h
    · next he =>
        cases h
        exact ⟨[.letter _ e he], rfl⟩
    · cases h

theorem marksChars_append (ms ms' : List Mark) :
    marksChars (ms ++ ms') = marksChars ms ++ marksChars ms' := List.flatMap_append

theorem exists_marks_of_readCharsWith {fuel : Nat} {cs es rest : List Char}
    (h : readCharsWith fuel cs = .ok (es, rest)) :
    ∃ ms : List Mark, cs = marksChars ms ++ '"' :: rest := by
  induction fuel generalizing cs es with
  | zero => cases h
  | succ fuel ih =>
      cases cs with
      | nil => cases h
      | cons c cs =>
          rw [readCharsWith] at h
          split at h
          · next hc =>
              cases h
              exact ⟨[], by rw [hc]; rfl⟩
          · next hquote =>
              split at h
              · next hc =>
                  obtain ⟨⟨e, mid⟩, hescape, h⟩ := bind_eq_ok.1 h
                  obtain ⟨⟨es', rest'⟩, hmore, h⟩ := bind_eq_ok.1 h
                  cases h
                  obtain ⟨ms, hms⟩ := exists_marks_of_readEscape hescape
                  obtain ⟨ms', rfl⟩ := ih hmore
                  exact ⟨ms ++ ms', by rw [hc, hms, marksChars_append, List.append_assoc]⟩
              · next hslash =>
                  split at h
                  · cases h
                  · next hcontrol =>
                      obtain ⟨⟨es', rest'⟩, hmore, h⟩ := bind_eq_ok.1 h
                      cases h
                      obtain ⟨ms, rfl⟩ := ih hmore
                      exact ⟨.plain c ⟨hquote, hslash, hcontrol⟩ :: ms, rfl⟩

theorem exists_marks_of_skipCharsWith {fuel : Nat} {cs rest : List Char}
    (h : skipCharsWith fuel cs = .ok rest) :
    ∃ ms : List Mark, cs = marksChars ms ++ '"' :: rest := by
  induction fuel generalizing cs with
  | zero => cases h
  | succ fuel ih =>
      cases cs with
      | nil => cases h
      | cons c cs =>
          rw [skipCharsWith] at h
          split at h
          · next hc =>
              cases h
              exact ⟨[], by rw [hc]; rfl⟩
          · next hquote =>
              split at h
              · next hc =>
                  obtain ⟨mid, hescape, hmore⟩ := bind_eq_ok.1 h
                  obtain ⟨m, hm⟩ := exists_mark_of_skipEscape hescape
                  obtain ⟨ms, rfl⟩ := ih hmore
                  exact ⟨m :: ms, by rw [hc, hm]; simp [marksChars]⟩
              · next hslash =>
                  split at h
                  · cases h
                  · next hcontrol =>
                      obtain ⟨ms, rfl⟩ := ih h
                      exact ⟨.plain c ⟨hquote, hslash, hcontrol⟩ :: ms, rfl⟩

theorem exists_quoted_of_readChars {cs es rest : List Char} (h : readChars cs = .ok (es, rest)) :
    ∃ q : Quoted, cs = q.tail ++ rest := by
  obtain ⟨ms, rfl⟩ := exists_marks_of_readCharsWith h
  exact ⟨⟨ms⟩, by simp [Quoted.tail]⟩

theorem exists_quoted_of_skipChars {cs rest : List Char} (h : skipChars cs = .ok rest) :
    ∃ q : Quoted, cs = q.tail ++ rest := by
  obtain ⟨ms, rfl⟩ := exists_marks_of_skipCharsWith h
  exact ⟨⟨ms⟩, by simp [Quoted.tail]⟩

/-! ## Numbers -/

theorem exists_digits_of_skipSomeDigits {cs rest : List Char} (h : skipSomeDigits cs = .ok rest) :
    ∃ d : Digits, cs = d.chars ++ rest ∧ d.chars = cs.takeWhile Char.isDigit := by
  rw [skipSomeDigits] at h
  split at h
  · next hstart =>
      cases h
      cases cs with
      | nil => cases hstart
      | cons c cs =>
          have hc : c.isDigit = true := hstart
          refine ⟨⟨(c :: cs).takeWhile Char.isDigit, by simp [hc],
            fun d hd => List.mem_takeWhile_imp hd⟩, ?_, rfl⟩
          exact List.takeWhile_append_dropWhile.symm
  · cases h

theorem takeSign_eq (cs : List Char) :
    ∃ sign, (sign = [] ∨ sign = ['+'] ∨ sign = ['-']) ∧ cs = sign ++ (takeSign cs).2 := by
  unfold takeSign
  split
  · exact ⟨['-'], Or.inr (Or.inr rfl), rfl⟩
  · exact ⟨['+'], Or.inr (Or.inl rfl), rfl⟩
  · exact ⟨[], Or.inl rfl, rfl⟩

theorem exists_power_of_skipSomeDigits {mark : Char} {cs rest : List Char}
    (hmark : mark = 'e' ∨ mark = 'E') (h : skipSomeDigits (takeSign cs).2 = .ok rest) :
    ∃ p : Option Power, mark :: cs = Power.chars p ++ rest := by
  obtain ⟨sign, hsign, hcs⟩ := takeSign_eq cs
  obtain ⟨d, hd, -⟩ := exists_digits_of_skipSomeDigits h
  exact ⟨some ⟨mark, hmark, sign, hsign, d⟩, by rw [hcs, hd]; simp [Power.chars]⟩

theorem exists_power_of_skipExponent {cs rest : List Char} (h : skipExponent cs = .ok rest) :
    ∃ p : Option Power, cs = Power.chars p ++ rest := by
  unfold skipExponent at h
  split at h
  · exact exists_power_of_skipSomeDigits (Or.inl rfl) h
  · exact exists_power_of_skipSomeDigits (Or.inr rfl) h
  · cases h
    exact ⟨none, rfl⟩

theorem exists_fraction_of_skipFraction {cs rest : List Char} (h : skipFraction cs = .ok rest) :
    ∃ (f : Option Digits) (p : Option Power),
      cs = Digits.fractionChars f ++ (Power.chars p ++ rest) := by
  unfold skipFraction at h
  split at h
  · obtain ⟨mid, hdigits, hexponent⟩ := bind_eq_ok.1 h
    obtain ⟨f, rfl, -⟩ := exists_digits_of_skipSomeDigits hdigits
    obtain ⟨p, rfl⟩ := exists_power_of_skipExponent hexponent
    exact ⟨some f, p, by simp [Digits.fractionChars]⟩
  · obtain ⟨p, rfl⟩ := exists_power_of_skipExponent h
    exact ⟨none, p, rfl⟩

theorem exists_whole_of_skipWhole {cs rest : List Char} (h : skipWhole cs = .ok rest) :
    ∃ d : Digits, (d.chars = ['0'] ∨ d.chars.head? ≠ some '0') ∧ cs = d.chars ++ rest := by
  unfold skipWhole at h
  split at h
  · split at h
    · cases h
    · cases h
      exact ⟨⟨['0'], by decide, List.all_eq_true.1 rfl⟩, Or.inl rfl, rfl⟩
  · next hzero =>
      obtain ⟨d, hd, -⟩ := exists_digits_of_skipSomeDigits h
      refine ⟨d, Or.inr ?_, hd⟩
      intro hhead
      obtain ⟨tail, htail⟩ := List.head?_eq_some_iff.1 hhead
      exact hzero (tail ++ rest) (by rw [hd, htail, List.cons_append])

/-- What a number is skipped over is a number, with a sign or without. -/
theorem exists_numeral_of_skipNumber (negative : Bool) {cs rest : List Char}
    (h : skipNumber cs = .ok rest) :
    ∃ n : Numeral, n.negative = negative ∧ cs = n.body ++ rest := by
  obtain ⟨mid, hwhole, hfraction⟩ := bind_eq_ok.1 h
  obtain ⟨d, hzero, rfl⟩ := exists_whole_of_skipWhole hwhole
  obtain ⟨f, p, rfl⟩ := exists_fraction_of_skipFraction hfraction
  exact ⟨⟨negative, d, hzero, f, p⟩, rfl, by simp [Numeral.body]⟩

section

variable {negative down : Bool} {significand exponent : Nat} {point : Int} {x : Numeric}
  {cs rest : List Char}

theorem finishFloat_rest {cs : List Char}
    (h : finishFloat negative significand point cs = .ok (x, rest)) : cs = rest := by
  unfold finishFloat at h
  split at h
  · cases h
    rfl
  · cases h

/-- The digits that fit 64 bits and those behind them are all digits of a run. -/
theorem takeDigits_takeFitting (significand : Nat) (cs : List Char) :
    (takeDigits (takeFitting significand cs).2).2 = (takeDigits cs).2 := by
  induction cs generalizing significand with
  | nil => rfl
  | cons c cs ih =>
      rw [takeFitting]
      split
      · next hc =>
          dsimp only
          split
          · rw [ih]
            simp [takeDigits, hc]
          · rfl
      · rfl

theorem readExponentDigits_rest
    (h : readExponentDigits negative significand point down exponent cs = .ok (x, rest)) :
    (takeDigits cs).2 = rest := by
  induction cs generalizing exponent with
  | nil => exact finishFloat_rest h
  | cons c cs ih =>
      rw [readExponentDigits] at h
      split at h
      · next hc =>
          have hdrop : (takeDigits (c :: cs)).2 = (takeDigits cs).2 := by simp [takeDigits, hc]
          rw [hdrop]
          dsimp only at h
          split at h
          · exact ih h
          · split at h
            · cases h
            · cases h
              rfl
      · next hc =>
          have hdrop : (takeDigits (c :: cs)).2 = c :: cs := by simp [takeDigits, hc]
          rw [hdrop]
          exact finishFloat_rest h

theorem skipSomeDigits_of_readExponent
    (h : readExponent negative significand point cs = .ok (x, rest)) :
    skipSomeDigits (takeSign cs).2 = .ok rest := by
  unfold readExponent at h
  dsimp only at h
  split at h
  · cases h
  · next c tail hcons =>
      split at h
      · next hc =>
          have hstart : startsWithDigit (takeSign cs).2 = true := by
            rw [hcons]
            exact hc
          rw [skipSomeDigits, if_pos hstart, readExponentDigits_rest h]
      · cases h

theorem skipExponent_of_no_mark (hlower : ∀ cs', cs = 'e' :: cs' → False)
    (hupper : ∀ cs', cs = 'E' :: cs' → False) : skipExponent cs = .ok cs := by
  unfold skipExponent
  split
  · exact absurd rfl (hlower _)
  · exact absurd rfl (hupper _)
  · rfl

theorem skipExponent_of_readFloatEnd
    (h : readFloatEnd negative significand point cs = .ok (x, rest)) :
    skipExponent cs = .ok rest := by
  unfold readFloatEnd at h
  split at h
  · exact skipSomeDigits_of_readExponent h
  · exact skipSomeDigits_of_readExponent h
  · next hlower hupper => rw [skipExponent_of_no_mark hlower hupper, finishFloat_rest h]

theorem skipFraction_of_readFraction
    (h : readFraction negative significand point cs = .ok (x, rest)) :
    skipFraction ('.' :: cs) = .ok rest := by
  unfold readFraction at h
  split at h
  · next hstart =>
      have hend := skipExponent_of_readFloatEnd h
      rw [takeDigits_takeFitting] at hend
      have hdigits : skipSomeDigits cs = .ok (takeDigits cs).2 := if_pos hstart
      show (skipSomeDigits cs >>= _) = _
      rw [hdigits]
      exact hend
  · split at h
    · cases h
    · cases h

theorem skipFraction_of_no_point (h : ∀ cs', cs = '.' :: cs' → False) :
    skipFraction cs = skipExponent cs := by
  unfold skipFraction
  split
  · exact absurd rfl (h _)
  · rfl

theorem skipWhole_of_isDigit {c : Char} (hc : c.isDigit = true)
    (hzero : ¬ (c = '0' ∧ startsWithDigit cs = true)) :
    skipWhole (c :: cs) = .ok (takeDigits (c :: cs)).2 := by
  unfold skipWhole
  split
  · next heq =>
      obtain ⟨rfl, rfl⟩ := List.cons.inj heq
      have hstart : startsWithDigit cs = false := by simpa using hzero
      rw [hstart, ← List.singleton_append, takeDigits_of_isDigit (by simp) hstart]
      rfl
  · exact if_pos hc

/-- A number that is read is one that could have been skipped. -/
theorem skipNumber_of_readNumber (h : readNumber negative cs = .ok (x, rest)) :
    skipNumber cs = .ok rest := by
  unfold readNumber at h
  split at h
  · cases h
  · next c after =>
      split at h
      · cases h
      · next hdigit =>
          split at h
          · cases h
          · next hzero =>
              have hwhole := skipWhole_of_isDigit (by simpa using hdigit) hzero
              dsimp only at h
              rw [takeDigits_takeFitting] at h
              rw [skipNumber, hwhole]
              show skipFraction (takeDigits (c :: after)).2 = _
              split at h
              · next r hr =>
                  rw [hr]
                  exact skipFraction_of_readFraction h
              · next r hr =>
                  rw [hr]
                  exact skipSomeDigits_of_readExponent h
              · next r hr =>
                  rw [hr]
                  exact skipSomeDigits_of_readExponent h
              · next hpoint hlower hupper =>
                  have hend : (takeDigits (c :: after)).2 = rest := by
                    split at h
                    · exact finishFloat_rest h
                    · split at h
                      · cases h
                        rfl
                      · split at h
                        · cases h
                          rfl
                        · cases h
                          rfl
                  rw [hend] at hpoint hlower hupper ⊢
                  rw [skipFraction_of_no_point hpoint, skipExponent_of_no_mark hlower hupper]

theorem exists_numeral_of_readNumber (h : readNumber negative cs = .ok (x, rest)) :
    ∃ n : Numeral, n.negative = negative ∧ cs = n.body ++ rest :=
  exists_numeral_of_skipNumber negative (skipNumber_of_readNumber h)

end

theorem Numeral.chars_of_negative {n : Numeral} (h : n.negative = true) :
    n.chars = '-' :: n.body := if_pos h

theorem Numeral.chars_of_not_negative {n : Numeral} (h : n.negative = false) :
    n.chars = n.body := if_neg (by simp [h])

end Criteria.Payload
