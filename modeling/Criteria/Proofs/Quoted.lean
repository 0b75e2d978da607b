import Criteria.Text.Quoted
import Criteria.Proofs.Uuid

set_option autoImplicit false

/-! # Quoted texts tell where they end

What is written for one character between quotes can be read back from the front of any longer text
(`unquote?_quoteChar`), and none of it starts with the quote itself. So a quoted text determines the
text in it and the place where it ends, whatever follows (`quoteChars_append_inj`). -/

namespace Criteria.Text

/-! ## Reading one character back -/

/-- The character of a letter behind a backslash. -/
def escaped? (c : Char) : Option Char :=
  if c = '"' then some '"'
  else if c = '\\' then some '\\'
  else if c = 'n' then some '\n'
  else if c = 'r' then some '\r'
  else if c = 't' then some '\t'
  else if c = '0' then some '\x00'
  else none

/-- The character whose number stands in braces at the start, and what follows it. -/
def unquoteNumber? : List Char → Option (Char × List Char)
  | '\x7b' :: cs =>
      (hexNumber? (cs.takeWhile (· != '\x7d'))).map fun n =>
        (Char.ofNat n, (cs.dropWhile (· != '\x7d')).drop 1)
  | _ => none

/-- The character that is written at the start of a text between quotes, and what follows it. -/
def unquote? : List Char → Option (Char × List Char)
  | [] => none
  | c :: cs =>
      if c = '\\' then
        match cs with
        | [] => none
        | d :: ds => if d = 'u' then unquoteNumber? ds else (escaped? d).map (·, ds)
      else some (c, cs)

/-- The hexadecimal digits of a number write it. -/
theorem hexNumber?_toDigits (n : Nat) : hexNumber? (Nat.toDigits 16 n) = some n := by
  induction n using Nat.strong_induction_on with
  | _ n ih =>
      by_cases hsmall : n < 16
      · have hdigit : ∀ k < 16, hexNumber? [Nat.digitChar k] = some k := by decide
        rw [Nat.toDigits_of_lt_base hsmall, hdigit n hsmall]
      · rw [Nat.toDigits_of_base_le (by decide) (Nat.not_lt.1 hsmall)]
        exact hexNumber?_concat_digitChar (ih (n / 16) (by omega))

theorem unquoteNumber?_toDigits (c : Char) (rest : List Char) :
    unquoteNumber? ('\x7b' :: (Nat.toDigits 16 c.toNat ++ '\x7d' :: rest)) = some (c, rest) := by
  have hhex := (exists_hexNumber?_iff _).1 ⟨_, hexNumber?_toDigits c.toNat⟩
  have hdigits : ∀ d ∈ Nat.toDigits 16 c.toNat, (d != '\x7d') = true := by
    intro d hd
    rw [bne_iff_ne]
    rintro rfl
    exact absurd (hhex _ hd) (by unfold IsHex; decide)
  have hend : ('\x7d' :: rest).takeWhile (· != '\x7d') = [] ∧
      ('\x7d' :: rest).dropWhile (· != '\x7d') = '\x7d' :: rest := by
    simp
  rw [unquoteNumber?, List.takeWhile_append_of_pos hdigits, List.dropWhile_append_of_pos hdigits,
    hend.1, hend.2, List.append_nil, hexNumber?_toDigits, Option.map_some, Char.ofNat_toNat]
  rfl

theorem unquote?_of_ne {c : Char} (h : c ≠ '\\') (cs : List Char) :
    unquote? (c :: cs) = some (c, cs) := if_neg h

/-- What is written for a character is read back as it. -/
theorem unquote?_quoteChar (c : Char) (rest : List Char) :
    unquote? (quoteChar c ++ rest) = some (c, rest) := by
  rw [quoteChar]
  split_ifs with hquote hslash hline hreturn htab hzero hhidden
  · rw [hquote]
    rfl
  · rw [hslash]
    rfl
  · rw [hline]
    rfl
  · rw [hreturn]
    rfl
  · rw [htab]
    rfl
  · rw [hzero]
    rfl
  · have hread : unquote? ('\\' :: 'u' :: '\x7b' :: (Nat.toDigits 16 c.toNat ++ '\x7d' :: rest)) =
        unquoteNumber? ('\x7b' :: (Nat.toDigits 16 c.toNat ++ '\x7d' :: rest)) := rfl
    simpa [hread] using unquoteNumber?_toDigits c rest
  · exact unquote?_of_ne hslash rest

/-! ## Texts -/

variable {c d : Char} {cs ds r s : List Char}

theorem quoteChar_append_inj (h : quoteChar c ++ r = quoteChar d ++ s) : c = d ∧ r = s := by
  have hread := congrArg unquote? h
  rw [unquote?_quoteChar, unquote?_quoteChar] at hread
  exact Prod.mk.inj (Option.some.inj hread)

/-- The quote is never written as itself. -/
theorem quoteChar_append_ne (c : Char) (r s : List Char) : quoteChar c ++ r ≠ '"' :: s := by
  intro h
  have hread := congrArg unquote? h
  rw [unquote?_quoteChar, unquote?_of_ne (by decide)] at hread
  obtain ⟨rfl, -⟩ := Prod.mk.inj (Option.some.inj hread)
  exact absurd (List.cons.inj h).1 (by decide)

/-- Up to the closing quote, the characters of a text are read one by one. -/
theorem flatMap_quoteChar_inj
    (h : cs.flatMap quoteChar ++ '"' :: r = ds.flatMap quoteChar ++ '"' :: s) :
    cs = ds ∧ r = s := by
  induction cs generalizing ds with
  | nil =>
      cases ds with
      | nil => exact ⟨rfl, (List.cons.inj h).2⟩
      | cons d ds =>
          rw [List.flatMap_cons, List.append_assoc] at h
          exact absurd h.symm (quoteChar_append_ne d _ r)
  | cons c cs ih =>
      cases ds with
      | nil =>
          rw [List.flatMap_cons, List.append_assoc] at h
          exact absurd h (quoteChar_append_ne c _ s)
      | cons d ds =>
          rw [List.flatMap_cons, List.flatMap_cons, List.append_assoc, List.append_assoc] at h
          obtain ⟨rfl, hrest⟩ := quoteChar_append_inj h
          obtain ⟨rfl, rfl⟩ := ih hrest
          exact ⟨rfl, rfl⟩

/-- **Quoted texts.** A quoted text at the front tells the text and what follows it. -/
theorem quoteChars_append_inj (h : quoteChars cs ++ r = quoteChars ds ++ s) : cs = ds ∧ r = s := by
  rw [quoteChars, quoteChars, List.cons_append, List.cons_append, List.cons_append,
    List.cons_append, List.append_assoc, List.append_assoc] at h
  exact flatMap_quoteChar_inj (List.cons.inj h).2

end Criteria.Text
