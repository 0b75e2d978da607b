import Criteria.Payload.Skip

set_option autoImplicit false

/-! # Tokens of a payload

Blanks, words, strings and numbers as they are written, and what they stand for. A reader that meets
a written token *settles* it: it gives what the token stands for and leaves the text behind it, or
it stops, if the token stands for nothing. Nothing in front of a token or behind it takes part,
except that the character behind a number must not continue it (`Ends`).

A string stands for nothing if half of a character stands in it without the other half; a number, if
it is beyond the largest double. A reader that skips a token does not look so closely. -/

namespace Criteria.Payload

open Number

/-! ## Settling -/

/-- The result of a reader is what is meant and the rest of the text, or a stop if nothing is. -/
def Settles {α : Type} (meaning : Option α) (result : Except Stop (α × List Char))
    (rest : List Char) : Prop :=
  match meaning with
  | some a => result = .ok (a, rest)
  | none => ∃ stop, result = .error stop

theorem Settles.map {α β : Type} {meaning : Option α} {result : Except Stop (α × List Char)}
    {rest : List Char} (h : Settles meaning result rest) (f : α → β) :
    Settles (meaning.map f) (result >>= fun p => .ok (f p.1, p.2)) rest := by
  cases meaning with
  | some a =>
      have hr : result = .ok (a, rest) := h
      rw [hr]
      rfl
  | none =>
      obtain ⟨stop, hr⟩ := h
      rw [hr]
      exact ⟨stop, rfl⟩

theorem Settles.bind {α β : Type} {meaning : Option α} {result : Except Stop (α × List Char)}
    {mid rest : List Char} {f : α → Option β} {k : α × List Char → Except Stop (β × List Char)}
    (h : Settles meaning result mid)
    (hk : ∀ a, meaning = some a → Settles (f a) (k (a, mid)) rest) :
    Settles (meaning.bind f) (result >>= k) rest := by
  cases meaning with
  | some a =>
      have hr : result = .ok (a, mid) := h
      rw [hr]
      exact hk a rfl
  | none =>
      obtain ⟨stop, hr⟩ := h
      rw [hr]
      exact ⟨stop, rfl⟩

/-- A reader that would stop behind any meaning stops. -/
theorem Settles.stops {α β : Type} {meaning : Option α} {result : Except Stop (α × List Char)}
    {mid : List Char} {k : α × List Char → Except Stop (β × List Char)}
    (h : Settles meaning result mid) (hk : ∀ a, ∃ stop, k (a, mid) = .error stop) :
    ∃ stop, (result >>= k) = .error stop := by
  cases meaning with
  | some a =>
      have hr : result = .ok (a, mid) := h
      rw [hr]
      exact hk a
  | none =>
      obtain ⟨stop, hr⟩ := h
      rw [hr]
      exact ⟨stop, rfl⟩

/-! ## Blanks and words -/

/-- Blanks between two tokens. -/
structure Gap where
  chars : List Char
  blank : ∀ c ∈ chars, isSpace c = true

/-- No blanks. -/
def Gap.empty : Gap := ⟨[], nofun⟩

@[simp] theorem skipSpace_gap (g : Gap) (cs : List Char) :
    skipSpace (g.chars ++ cs) = skipSpace cs :=
  List.dropWhile_append_of_pos g.blank

theorem skipSpace_cons {c : Char} (h : isSpace c = false) (cs : List Char) :
    skipSpace (c :: cs) = c :: cs :=
  List.dropWhile_cons_of_neg (by simp [h])

theorem readWord_append (w rest : List Char) : readWord w (w ++ rest) = .ok rest := by
  induction w with
  | nil => rfl
  | cons c w ih => simp [readWord, ih]

/-- The text is empty or starts with a character that stands behind a value. -/
def Ends (cs : List Char) : Prop :=
  ∀ c ∈ cs.head?, isSpace c = true ∨ c = ',' ∨ c = ']' ∨ c = '\x7d'

theorem ends_gap (g : Gap) {cs : List Char} (h : Ends cs) : Ends (g.chars ++ cs) := by
  intro c hc
  -- The first character is the one of the gap, unless the gap is empty.
  cases hg : g.chars with
  | nil =>
      rw [hg] at hc
      exact h c hc
  | cons d ds =>
      rw [hg] at hc
      simp only [List.cons_append, List.head?_cons, Option.mem_some_iff] at hc
      subst hc
      exact Or.inl (g.blank d (by simp [hg]))

theorem Ends.ne {c : Char} {cs : List Char} (h : Ends (c :: cs)) :
    c.isDigit = false ∧ c ≠ '.' ∧ c ≠ 'e' ∧ c ≠ 'E' := by
  rcases h c (by simp) with hc | rfl | rfl | rfl
  · simp only [isSpace, Bool.or_eq_true, beq_iff_eq] at hc
    rcases hc with ((rfl | rfl) | rfl) | rfl <;> decide
  · decide
  · decide
  · decide

theorem Ends.startsWithDigit {cs : List Char} (h : Ends cs) :
    Payload.startsWithDigit cs = false := by
  cases cs with
  | nil => rfl
  | cons c cs => exact h.ne.1

/-! ## Strings -/

/-- A character of a string as it is written: by itself, as a letter behind a backslash, or by the
number of a unit of 16 bits, which may be one half of a character. -/
inductive Mark where
  | plain (c : Char) (h : c ≠ '"' ∧ c ≠ '\\' ∧ ¬ c < ' ')
  | letter (c e : Char) (h : letterEscape? c = some e)
  | unit (digits : List Char) (n : Nat) (h : digits.length = 4 ∧ Text.hexNumber? digits = some n)

/-- The text of a mark. -/
def Mark.chars : Mark → List Char
  | .plain c _ => [c]
  | .letter c _ _ => ['\\', c]
  | .unit digits _ _ => '\\' :: 'u' :: digits

/-- The text of marks. -/
def marksChars (ms : List Mark) : List Char := ms.flatMap Mark.chars

/-- The characters that marks stand for. -/
def decoded : List Mark → Option (List Char)
  | [] => some []
  | .plain c _ :: ms => (decoded ms).map (c :: ·)
  | .letter _ e _ :: ms => (decoded ms).map (e :: ·)
  | .unit _ n _ :: ms =>
      if 0xDC00 ≤ n ∧ n ≤ 0xDFFF then none
      else if 0xD800 ≤ n ∧ n ≤ 0xDBFF then
        match ms with
        | .unit _ k _ :: ms =>
            if 0xDC00 ≤ k ∧ k ≤ 0xDFFF then
              (decoded ms).map (Char.ofNat (0x10000 + (n - 0xD800) * 0x400 + (k - 0xDC00)) :: ·)
            else none
        | _ => none
      else (decoded ms).map (Char.ofNat n :: ·)

/-- A string as it is written. -/
structure Quoted where
  marks : List Mark

/-- The text of a string behind its opening quote. -/
def Quoted.tail (q : Quoted) : List Char := marksChars q.marks ++ ['"']

/-- What a string stands for. -/
def Quoted.text? (q : Quoted) : Option String := (decoded q.marks).map String.ofList

theorem length_le_marksChars (ms : List Mark) : ms.length ≤ (marksChars ms).length := by
  induction ms with
  | nil => exact Nat.le_refl 0
  | cons m ms ih =>
      have hm : 1 ≤ m.chars.length := by cases m <;> simp [Mark.chars]
      simp only [marksChars, List.flatMap_cons, List.length_cons, List.length_append] at ih ⊢
      omega

theorem le_byteLength (cs : List Char) : cs.length ≤ byteLength cs := by
  induction cs with
  | nil => exact Nat.le_refl 0
  | cons c cs ih =>
      have hc := c.utf8Size_pos
      simp only [byteLength, List.foldr_cons, List.length_cons] at ih ⊢
      omega

theorem readHex_append {digits : List Char} {n : Nat}
    (h : digits.length = 4 ∧ Text.hexNumber? digits = some n) (rest : List Char) :
    readHex (digits ++ rest) = .ok (n, rest) := by
  obtain ⟨hlength, hvalue⟩ := h
  have htake : (digits ++ rest).take 4 = digits := List.take_left' hlength
  have hdrop : (digits ++ rest).drop 4 = rest := List.drop_left' hlength
  have hbytes : ¬ byteLength digits < 4 := by
    have := le_byteLength digits
    omega
  rw [readHex, htake, hdrop, if_neg hbytes, hvalue]

theorem ne_of_letterEscape? {c e : Char} (h : letterEscape? c = some e) : c ≠ 'u' := by
  rintro rfl
  exact absurd h (by simp [letterEscape?])

theorem readEscape_letter {c e : Char} (h : letterEscape? c = some e) (rest : List Char) :
    readEscape (c :: rest) = .ok (e, rest) := by
  unfold readEscape
  split
  · next heq => cases heq
  · next heq =>
      cases heq
      exact absurd rfl (ne_of_letterEscape? h)
  · next heq =>
      cases heq
      rw [h]

theorem skipEscape_letter {c e : Char} (h : letterEscape? c = some e) (rest : List Char) :
    skipEscape (c :: rest) = .ok rest := by
  unfold skipEscape
  split
  · next heq => cases heq
  · next heq =>
      cases heq
      exact absurd rfl (ne_of_letterEscape? h)
  · next heq =>
      cases heq
      rw [h]

theorem skipEscape_unit {digits : List Char} {n : Nat}
    (h : digits.length = 4 ∧ Text.hexNumber? digits = some n) (rest : List Char) :
    skipEscape ('u' :: (digits ++ rest)) = .ok rest := by
  rw [skipEscape, readHex_append h]
  rfl

theorem readCharsWith_escape {fuel : Nat} {cs mid : List Char} {e : Char}
    (h : readEscape cs = .ok (e, mid)) :
    readCharsWith (fuel + 1) ('\\' :: cs) =
      readCharsWith fuel mid >>= fun p => .ok (e :: p.1, p.2) := by
  show (readEscape cs >>= _) = _
  rw [h]
  rfl

theorem readCharsWith_escape_error {fuel : Nat} {cs : List Char} {stop : Stop}
    (h : readEscape cs = .error stop) : readCharsWith (fuel + 1) ('\\' :: cs) = .error stop := by
  show (readEscape cs >>= _) = _
  rw [h]
  rfl

theorem readCharsWith_plain {fuel : Nat} {c : Char} (h : c ≠ '"' ∧ c ≠ '\\' ∧ ¬ c < ' ')
    (cs : List Char) :
    readCharsWith (fuel + 1) (c :: cs) =
      readCharsWith fuel cs >>= fun p => .ok (c :: p.1, p.2) := by
  obtain ⟨hquote, hslash, hcontrol⟩ := h
  rw [readCharsWith, if_neg hquote, if_neg hslash, if_neg hcontrol]
  rfl

/-! ### Units of 16 bits -/

theorem readEscape_unit {digits : List Char} {n : Nat}
    (h : digits.length = 4 ∧ Text.hexNumber? digits = some n) (rest : List Char) :
    readEscape ('u' :: (digits ++ rest)) =
      if 0xDC00 ≤ n ∧ n ≤ 0xDFFF then stopAfter .loneSurrogate rest
      else if 0xD800 ≤ n ∧ n ≤ 0xDBFF then readLowHalf n rest
      else .ok (Char.ofNat n, rest) := by
  rw [readEscape, readHex_append h]
  rfl

theorem readLowHalf_unit {digits : List Char} {n : Nat}
    (h : digits.length = 4 ∧ Text.hexNumber? digits = some n) (high : Nat) (rest : List Char) :
    readLowHalf high ('\\' :: 'u' :: (digits ++ rest)) =
      if 0xDC00 ≤ n ∧ n ≤ 0xDFFF then
        .ok (Char.ofNat (0x10000 + (high - 0xD800) * 0x400 + (n - 0xDC00)), rest)
      else stopAfter .loneSurrogate rest := by
  rw [readLowHalf, readHex_append h]
  rfl

/-- Behind the first half of a character stands its other half, or the reader stops. -/
theorem readLowHalf_error {ms : List Mark}
    (h : ∀ digits k hk ms', ms = .unit digits k hk :: ms' → False) (high : Nat)
    (rest : List Char) : ∃ stop, readLowHalf high (marksChars ms ++ '"' :: rest) = .error stop := by
  cases ms with
  | nil =>
      refine ⟨⟨.endOfHexEscape, '"' :: rest, 1⟩, ?_⟩
      show readLowHalf high ('"' :: rest) = _
      rw [readLowHalf] <;> simp [stopAt]
  | cons m ms =>
      cases m with
      | plain c hc =>
          obtain ⟨-, hslash, -⟩ := hc
          refine ⟨⟨.endOfHexEscape, c :: (marksChars ms ++ '"' :: rest), 1⟩, ?_⟩
          show readLowHalf high (c :: (marksChars ms ++ '"' :: rest)) = _
          unfold readLowHalf
          split <;> simp_all [stopAt]
      | letter c e hc =>
          have hu := ne_of_letterEscape? hc
          refine ⟨⟨.endOfHexEscape, c :: (marksChars ms ++ '"' :: rest), 1⟩, ?_⟩
          show readLowHalf high ('\\' :: c :: (marksChars ms ++ '"' :: rest)) = _
          unfold readLowHalf
          split <;> simp_all [stopAt]
      | unit digits k hk => exact absurd rfl (h digits k hk ms)

/-! ### Whole strings -/

theorem marksChars_unit {digits : List Char} {n : Nat}
    (h : digits.length = 4 ∧ Text.hexNumber? digits = some n) (ms : List Mark) (rest : List Char) :
    marksChars (.unit digits n h :: ms) ++ rest =
      '\\' :: 'u' :: (digits ++ (marksChars ms ++ rest)) := by
  simp [marksChars, Mark.chars]

theorem settles_readCharsWith {ms : List Mark} {fuel : Nat} (hfuel : ms.length ≤ fuel)
    (rest : List Char) :
    Settles (decoded ms) (readCharsWith (fuel + 1) (marksChars ms ++ '"' :: rest)) rest := by
  -- The induction is that of `decoded`, which looks at two units at once where the first of them is
  -- half of a character.
  induction ms using decoded.induct generalizing fuel with
  | case1 => rfl
  | case2 c h ms ih =>
      obtain ⟨fuel, rfl⟩ := Nat.exists_eq_add_of_le' (Nat.le_of_add_left_le hfuel)
      show Settles ((decoded ms).map (c :: ·))
        (readCharsWith (fuel + 1 + 1) (c :: (marksChars ms ++ '"' :: rest))) rest
      rw [readCharsWith_plain h]
      exact (ih (Nat.le_of_succ_le_succ hfuel)).map _
  | case3 c e h ms ih =>
      obtain ⟨fuel, rfl⟩ := Nat.exists_eq_add_of_le' (Nat.le_of_add_left_le hfuel)
      show Settles ((decoded ms).map (e :: ·))
        (readCharsWith (fuel + 1 + 1) ('\\' :: c :: (marksChars ms ++ '"' :: rest))) rest
      rw [readCharsWith_escape (readEscape_letter h _)]
      exact (ih (Nat.le_of_succ_le_succ hfuel)).map _
  | case4 digits n h ms hlow =>
      -- a second half without a first
      have hnone : decoded (.unit digits n h :: ms) = none := by
        rw [decoded.eq_def]
        exact if_pos hlow
      rw [hnone, marksChars_unit]
      refine ⟨⟨.loneSurrogate, marksChars ms ++ '"' :: rest, 0⟩, readCharsWith_escape_error ?_⟩
      rw [readEscape_unit h, if_pos hlow, stopAfter]
  | case5 digits n h hlow hhigh digits' k h' ms hk ih =>
      -- both halves
      obtain ⟨fuel, rfl⟩ := Nat.exists_eq_add_of_le' (Nat.le_of_add_left_le hfuel)
      rw [decoded, if_neg hlow, if_pos hhigh, if_pos hk, marksChars_unit, marksChars_unit,
        readCharsWith_escape (by
          rw [readEscape_unit h, if_neg hlow, if_pos hhigh, readLowHalf_unit h', if_pos hk])]
      exact (ih (by simp only [List.length_cons] at hfuel; omega)).map _
  | case6 digits n h hlow hhigh digits' k h' ms hk =>
      -- a first half before a unit that is no second half
      rw [decoded, if_neg hlow, if_pos hhigh, if_neg hk, marksChars_unit, marksChars_unit]
      refine ⟨⟨.loneSurrogate, marksChars ms ++ '"' :: rest, 0⟩, readCharsWith_escape_error ?_⟩
      rw [readEscape_unit h, if_neg hlow, if_pos hhigh, readLowHalf_unit h', if_neg hk, stopAfter]
  | case7 digits n h ms hlow hhigh hms =>
      -- a first half before anything else
      obtain ⟨stop, hstop⟩ := readLowHalf_error hms n rest
      have hnone : decoded (.unit digits n h :: ms) = none := by
        rw [decoded, if_neg hlow, if_pos hhigh]
        exact hms
      rw [hnone, marksChars_unit]
      refine ⟨stop, readCharsWith_escape_error ?_⟩
      rw [readEscape_unit h, if_neg hlow, if_pos hhigh, hstop]
  | case8 digits n h ms hlow hhigh ih =>
      -- a character by its number
      obtain ⟨fuel, rfl⟩ := Nat.exists_eq_add_of_le' (Nat.le_of_add_left_le hfuel)
      have hread : readEscape ('u' :: (digits ++ (marksChars ms ++ '"' :: rest))) =
          .ok (Char.ofNat n, marksChars ms ++ '"' :: rest) := by
        rw [readEscape_unit h, if_neg hlow, if_neg hhigh]
      have hsome : decoded (.unit digits n h :: ms) = (decoded ms).map (Char.ofNat n :: ·) := by
        rw [decoded.eq_def]
        show (if _ then _ else if _ then _ else _) = _
        rw [if_neg hlow, if_neg hhigh]
      rw [hsome, marksChars_unit, readCharsWith_escape hread]
      exact (ih (Nat.le_of_succ_le_succ hfuel)).map _

/-- The fuel of a reader of strings is enough for the marks in front of it. -/
theorem Quoted.length_le_tail (q : Quoted) (rest : List Char) :
    q.marks.length ≤ (q.tail ++ rest).length := by
  have hmarks := length_le_marksChars q.marks
  simp only [Quoted.tail, List.length_append]
  omega

/-- A reader of strings settles every string, whatever follows it. -/
theorem Quoted.settles_readChars (q : Quoted) (rest : List Char) :
    Settles (decoded q.marks) (readChars (q.tail ++ rest)) rest := by
  rw [readChars]
  simpa [Quoted.tail] using settles_readCharsWith (q.length_le_tail rest) rest

theorem skipCharsWith_marks {ms : List Mark} {fuel : Nat} (hfuel : ms.length ≤ fuel)
    (rest : List Char) : skipCharsWith (fuel + 1) (marksChars ms ++ '"' :: rest) = .ok rest := by
  induction ms generalizing fuel with
  | nil => rfl
  | cons m ms ih =>
      obtain ⟨fuel, rfl⟩ := Nat.exists_eq_add_of_le' (Nat.le_of_add_left_le hfuel)
      have hrest := ih (Nat.le_of_succ_le_succ hfuel)
      cases m with
      | plain c h =>
          obtain ⟨hquote, hslash, hcontrol⟩ := h
          show skipCharsWith (fuel + 1 + 1) (c :: (marksChars ms ++ '"' :: rest)) = _
          rw [skipCharsWith, if_neg hquote, if_neg hslash, if_neg hcontrol, hrest]
      | letter c e h =>
          show (skipEscape (c :: (marksChars ms ++ '"' :: rest)) >>= _) = _
          rw [skipEscape_letter h]
          exact hrest
      | unit digits n h =>
          rw [marksChars_unit]
          show (skipEscape ('u' :: (digits ++ (marksChars ms ++ '"' :: rest))) >>= _) = _
          rw [skipEscape_unit h]
          exact hrest

theorem Quoted.skipChars_tail (q : Quoted) (rest : List Char) :
    skipChars (q.tail ++ rest) = .ok rest := by
  rw [skipChars]
  simpa [Quoted.tail] using skipCharsWith_marks (q.length_le_tail rest) rest

end Criteria.Payload
