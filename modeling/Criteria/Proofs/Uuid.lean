import Criteria.Uuid
import Mathlib.Algebra.Ring.Nat
import Mathlib.Tactic.SplitIfs

set_option autoImplicit false

/-! # Identifiers in texts

An identifier is written as 32 hexadecimal digits in either case: by themselves, or in groups with
hyphens between them, and the groups also in braces or behind `urn:uuid:` (`WrittenUuid`). The
reader accepts these forms and nothing else (`exists_read?_iff`). -/

namespace Criteria.Text

/-! ## Hexadecimal digits -/

/-- A hexadecimal digit. -/
def IsHex (c : Char) : Prop :=
  ('0' ≤ c ∧ c ≤ '9') ∨ ('a' ≤ c ∧ c ≤ 'f') ∨ ('A' ≤ c ∧ c ≤ 'F')

theorem exists_hexValue?_iff (c : Char) : (∃ n, hexValue? c = some n) ↔ IsHex c := by
  unfold hexValue? IsHex
  split_ifs with hdigit hsmall hcapital
  · exact iff_of_true ⟨_, rfl⟩ (Or.inl hdigit)
  · exact iff_of_true ⟨_, rfl⟩ (Or.inr (Or.inl hsmall))
  · exact iff_of_true ⟨_, rfl⟩ (Or.inr (Or.inr hcapital))
  · refine iff_of_false (by simp) ?_
    rintro (h | h | h)
    · exact hdigit h
    · exact hsmall h
    · exact hcapital h

theorem toNat_le_of_le {c d : Char} (h : c ≤ d) : c.toNat ≤ d.toNat := h

theorem hexValue?_lt {c : Char} {n : Nat} (h : hexValue? c = some n) : n < 16 := by
  unfold hexValue? at h
  split_ifs at h with hdigit hsmall hcapital
  · have hle := toNat_le_of_le hdigit.2
    have hnine : '9'.toNat = 57 := rfl
    obtain rfl := Option.some.inj h
    omega
  · have hle := toNat_le_of_le hsmall.2
    have hf : 'f'.toNat = 102 := rfl
    obtain rfl := Option.some.inj h
    omega
  · have hle := toNat_le_of_le hcapital.2
    have hf : 'F'.toNat = 70 := rfl
    obtain rfl := Option.some.inj h
    omega

/-- One more digit. -/
def pushHex (acc : Option Nat) (c : Char) : Option Nat := do return (← acc) * 16 + (← hexValue? c)

theorem foldl_pushHex_none (cs : List Char) : cs.foldl pushHex none = none := by
  induction cs with
  | nil => rfl
  | cons c cs ih => exact ih

theorem foldl_pushHex_lt {cs : List Char} {acc n : Nat}
    (h : cs.foldl pushHex (some acc) = some n) : n < (acc + 1) * 16 ^ cs.length := by
  induction cs generalizing acc with
  | nil =>
      obtain rfl := Option.some.inj h
      simp
  | cons c cs ih =>
      cases hc : hexValue? c with
      | none =>
          rw [List.foldl_cons, pushHex, hc] at h
          have hnone := foldl_pushHex_none cs
          exact absurd (hnone.symm.trans h) (by simp)
      | some d =>
          rw [List.foldl_cons, pushHex, hc] at h
          have hd := hexValue?_lt hc
          calc n < (acc * 16 + d + 1) * 16 ^ cs.length := ih h
            _ ≤ (acc + 1) * 16 * 16 ^ cs.length := Nat.mul_le_mul_right _ (by omega)
            _ = (acc + 1) * 16 ^ (c :: cs).length := by
              rw [List.length_cons, Nat.pow_succ, Nat.mul_assoc, Nat.mul_comm 16]

theorem exists_foldl_pushHex_iff (cs : List Char) (acc : Nat) :
    (∃ n, cs.foldl pushHex (some acc) = some n) ↔ ∀ c ∈ cs, IsHex c := by
  induction cs generalizing acc with
  | nil => simp
  | cons c cs ih =>
      rw [List.forall_mem_cons, ← exists_hexValue?_iff]
      cases hc : hexValue? c with
      | none =>
          refine iff_of_false ?_ (by simp)
          rw [List.foldl_cons, pushHex, hc]
          change ¬ ∃ n, cs.foldl pushHex none = some n
          simp [foldl_pushHex_none]
      | some d =>
          rw [List.foldl_cons, pushHex, hc]
          simpa using ih (acc * 16 + d)

/-- All hexadecimal digits write a number. -/
theorem exists_hexNumber?_iff (cs : List Char) :
    (∃ n, hexNumber? cs = some n) ↔ ∀ c ∈ cs, IsHex c :=
  exists_foldl_pushHex_iff cs 0

theorem hexNumber?_lt {cs : List Char} {n : Nat} (h : hexNumber? cs = some n) :
    n < 16 ^ cs.length := by
  simpa using foldl_pushHex_lt h

theorem hexNumber?_concat (cs : List Char) (c : Char) :
    hexNumber? (cs ++ [c]) =
      (hexNumber? cs).bind fun n => (hexValue? c).map fun v => n * 16 + v := by
  rw [hexNumber?, List.foldl_append, ← hexNumber?, List.foldl_cons, List.foldl_nil]
  cases hexNumber? cs <;> cases hexValue? c <;> rfl

/-- One more digit of a number. -/
theorem hexNumber?_concat_digitChar {cs : List Char} {n : Nat}
    (h : hexNumber? cs = some (n / 16)) :
    hexNumber? (cs ++ [Nat.digitChar (n % 16)]) = some n := by
  have hdigit : ∀ k < 16, hexValue? (Nat.digitChar k) = some k := by decide
  rw [hexNumber?_concat, h, hdigit _ (Nat.mod_lt n (by decide))]
  exact congrArg some (Nat.div_add_mod' n 16)

/-- Enough hexadecimal digits of a number write it. -/
theorem hexNumber?_hexDigits {width n : Nat} (h : n < 16 ^ width) :
    hexNumber? (hexDigits width n) = some n := by
  induction width generalizing n with
  | zero =>
      obtain rfl : n = 0 := by simpa using h
      rfl
  | succ width ih =>
      have hquotient : n / 16 < 16 ^ width := by
        rw [Nat.pow_succ] at h
        exact Nat.div_lt_of_lt_mul (by rwa [Nat.mul_comm])
      exact hexNumber?_concat_digitChar (ih hquotient)

end Criteria.Text

namespace Criteria.Uuid

open Text

/-! ## Groups -/

/-- A group in front of others: its digits, a hyphen, and the other groups. -/
theorem ungrouped?_cons_cons_iff {n m : Nat} {sizes : List Nat} {cs ds : List Char} :
    ungrouped? (n :: m :: sizes) cs = some ds ↔ ∃ rest es, cs.drop n = '-' :: rest ∧
      ungrouped? (m :: sizes) rest = some es ∧ cs.take n ++ es = ds := by
  rw [ungrouped?]
  · constructor
    · intro h
      split at h
      · next rest hdrop =>
          obtain ⟨es, hes, hds⟩ := Option.map_eq_some_iff.1 h
          exact ⟨rest, es, hdrop, hes, hds⟩
      · cases h
    · rintro ⟨rest, es, hdrop, hes, rfl⟩
      rw [hdrop]
      change (ungrouped? (m :: sizes) rest).map (cs.take n ++ ·) = some (cs.take n ++ es)
      rw [hes, Option.map_some]
  · simp

/-- Groups are read if there are as many digits as they have room for. -/
theorem ungrouped?_eq_some_iff {sizes : List Nat} {cs ds : List Char} :
    ungrouped? sizes cs = some ds ↔ ds.length = sizes.sum ∧ cs = grouped sizes ds := by
  induction sizes generalizing cs ds with
  | nil =>
      rw [ungrouped?, grouped, Option.ite_none_right_eq_some, List.isEmpty_iff, List.sum_nil,
        List.length_eq_zero_iff]
      constructor
      · rintro ⟨rfl, h⟩
        obtain rfl := Option.some.inj h
        exact ⟨rfl, rfl⟩
      · rintro ⟨rfl, rfl⟩
        exact ⟨rfl, rfl⟩
  | cons n sizes ih =>
      cases sizes with
      | nil =>
          rw [ungrouped?, grouped, Option.ite_none_right_eq_some, List.sum_singleton,
            Option.some.injEq]
          constructor
          · rintro ⟨hlength, rfl⟩
            exact ⟨hlength, rfl⟩
          · rintro ⟨hlength, rfl⟩
            exact ⟨hlength, rfl⟩
      | cons m sizes =>
          rw [ungrouped?_cons_cons_iff, List.sum_cons, grouped]
          · constructor
            · rintro ⟨rest, es, hdrop, hes, rfl⟩
              obtain ⟨hlength, rfl⟩ := ih.1 hes
              have hn : n < cs.length := by
                refine Nat.lt_of_not_le fun hle => ?_
                rw [List.drop_of_length_le hle] at hdrop
                cases hdrop
              have htake : (cs.take n).length = n := List.length_take_of_le (Nat.le_of_lt hn)
              refine ⟨by rw [List.length_append, htake, hlength], ?_⟩
              rw [List.take_left' htake, List.drop_left' htake, ← hdrop, List.take_append_drop]
            · rintro ⟨hlength, rfl⟩
              have htake : (ds.take n).length = n := List.length_take_of_le (by omega)
              have hrest : (ds.drop n).length = (m :: sizes).sum := by
                rw [List.length_drop]
                omega
              refine ⟨_, _, List.drop_left' htake, ih.2 ⟨hrest, rfl⟩, ?_⟩
              rw [List.take_left' htake, List.take_append_drop]
          · simp

/-! ## Forms -/

/-- The digits of an identifier as a text writes them. -/
structure HexDigits where
  chars : List Char
  length_eq : chars.length = 32
  isHex : ∀ c ∈ chars, IsHex c

/-- The forms in which an identifier is written. -/
inductive WrittenUuid where
  | plain (digits : HexDigits)
  | hyphenated (digits : HexDigits)
  | braced (digits : HexDigits)
  | urn (scheme : List Char) (scheme_eq : scheme.map Char.toLower = "urn:uuid:".toList)
      (digits : HexDigits)

/-- The text of an identifier. -/
def WrittenUuid.chars : WrittenUuid → List Char
  | plain digits => digits.chars
  | hyphenated digits => grouped groupSizes digits.chars
  | braced digits => '\x7b' :: (grouped groupSizes digits.chars ++ ['\x7d'])
  | urn scheme _ digits => scheme ++ grouped groupSizes digits.chars

theorem exists_readDigits?_iff {cs : List Char} :
    (∃ u, readDigits? cs = some u) ↔ ∃ d : HexDigits, d.chars = cs := by
  constructor
  · rintro ⟨u, hu⟩
    rw [readDigits?] at hu
    split_ifs at hu with hlength
    obtain ⟨n, hn, -⟩ := Option.bind_eq_some_iff.1 hu
    exact ⟨⟨cs, hlength, (exists_hexNumber?_iff cs).1 ⟨n, hn⟩⟩, rfl⟩
  · rintro ⟨d, rfl⟩
    obtain ⟨n, hn⟩ := (exists_hexNumber?_iff d.chars).2 d.isHex
    have hlt := hexNumber?_lt hn
    rw [d.length_eq] at hlt
    have hvalue : n < Nat.pow 2 128 := Nat.lt_of_lt_of_le hlt (by decide)
    exact ⟨⟨n, hvalue⟩, by rw [readDigits?, if_pos d.length_eq, hn, Option.bind_some, ofValue?,
      dif_pos hvalue]⟩

theorem exists_readGrouped?_iff {cs : List Char} :
    (∃ u, readGrouped? cs = some u) ↔ ∃ d : HexDigits, grouped groupSizes d.chars = cs := by
  constructor
  · rintro ⟨u, hu⟩
    obtain ⟨ds, hds, hu⟩ := Option.bind_eq_some_iff.1 hu
    obtain ⟨d, rfl⟩ := exists_readDigits?_iff.1 ⟨u, hu⟩
    exact ⟨d, (ungrouped?_eq_some_iff.1 hds).2.symm⟩
  · rintro ⟨d, rfl⟩
    obtain ⟨u, hu⟩ := exists_readDigits?_iff.2 ⟨d, rfl⟩
    have hds : ungrouped? groupSizes (grouped groupSizes d.chars) = some d.chars :=
      ungrouped?_eq_some_iff.2 ⟨d.length_eq, rfl⟩
    exact ⟨u, by rw [readGrouped?, hds, Option.bind_some, hu]⟩

theorem eq_of_toLower_eq_u {c : Char} (h : c.toLower = 'u') : c = 'u' ∨ c = 'U' := by
  unfold Char.toLower at h
  split at h
  · have hval : c.val + ('a'.val - 'A'.val) = 'U'.val + ('a'.val - 'A'.val) := congrArg Char.val h
    exact Or.inr (Char.ext ((UInt32.add_left_inj _).1 hval))
  · exact Or.inl h

/-- A hexadecimal digit starts neither of the forms that start with something else. -/
theorem ne_of_isHex {c : Char} (h : IsHex c) : c ≠ '\x7b' ∧ c.toLower ≠ 'u' := by
  constructor
  · rintro rfl
    exact absurd h (by unfold IsHex; decide)
  · intro hu
    rcases eq_of_toLower_eq_u hu with rfl | rfl
    · exact absurd h (by unfold IsHex; decide)
    · exact absurd h (by unfold IsHex; decide)

theorem length_grouped (d : HexDigits) : (grouped groupSizes d.chars).length = 36 := by
  have hlength := d.length_eq
  simp [grouped, groupSizes, hlength]

/-- Digits in groups start with the same digit. -/
theorem exists_cons (d : HexDigits) : ∃ c cs ds, d.chars = c :: cs ∧
    grouped groupSizes d.chars = c :: ds ∧ IsHex c := by
  have hlength := d.length_eq
  cases hchars : d.chars with
  | nil =>
      rw [hchars] at hlength
      cases hlength
  | cons c cs => exact ⟨c, cs, _, rfl, rfl, d.isHex c (by simp [hchars])⟩

/-- Braces surround a text that ends in the closing one. -/
theorem dropLast_append_brace {rest : List Char} (h : rest.getLast? = some '\x7d') :
    rest.dropLast ++ ['\x7d'] = rest := by
  obtain ⟨cs, rfl⟩ := List.getLast?_eq_some_iff.1 h
  rw [List.dropLast_concat]

theorem take_nine_ne {c : Char} {cs : List Char} (hc : IsHex c) :
    ((c :: cs).take 9).map Char.toLower ≠ "urn:uuid:".toList := by
  intro h
  exact (ne_of_isHex hc).2 (List.cons.inj h).1

/-- A text that starts with a digit has one of the first two forms. -/
theorem read?_of_isHex {c : Char} (hc : IsHex c) (cs : List Char) :
    read? (c :: cs) =
      if (c :: cs).length = 32 then readDigits? (c :: cs) else readGrouped? (c :: cs) := by
  unfold read?
  split
  · next heq => exact absurd (List.cons.inj heq).1 (ne_of_isHex hc).1
  · rw [if_neg (take_nine_ne hc)]

theorem read?_braced (cs : List Char) : read? ('\x7b' :: (cs ++ ['\x7d'])) = readGrouped? cs := by
  change (if (cs ++ ['\x7d']).getLast? = some '\x7d' then
    readGrouped? (cs ++ ['\x7d']).dropLast else none) = _
  rw [List.getLast?_concat, if_pos rfl, List.dropLast_concat]

theorem read?_urn {scheme : List Char} (h : scheme.map Char.toLower = "urn:uuid:".toList)
    (cs : List Char) : read? (scheme ++ cs) = readGrouped? cs := by
  have hlength : scheme.length = 9 := by simpa using congrArg List.length h
  unfold read?
  split
  · next rest heq =>
      cases scheme with
      | nil => cases hlength
      | cons c scheme =>
          obtain ⟨rfl, -⟩ := List.cons.inj heq
          exact absurd (List.cons.inj h).1 (by decide)
  · rw [List.take_left' hlength, if_pos h, List.drop_left' hlength]

theorem read?_grouped (d : HexDigits) :
    read? (grouped groupSizes d.chars) = readGrouped? (grouped groupSizes d.chars) := by
  obtain ⟨c, -, ds, -, hcons, hc⟩ := exists_cons d
  have hlength := length_grouped d
  rw [hcons, read?_of_isHex hc, ← hcons, hlength, if_neg (by decide)]

/-- A text is read as an identifier if it is one of the forms. -/
theorem exists_read?_iff (cs : List Char) :
    (∃ u, read? cs = some u) ↔ ∃ w : WrittenUuid, w.chars = cs := by
  constructor
  · rintro ⟨u, hu⟩
    unfold read? at hu
    split at hu
    · next rest =>
        split_ifs at hu with hbrace
        obtain ⟨d, hd⟩ := exists_readGrouped?_iff.1 ⟨u, hu⟩
        exact ⟨.braced d, by rw [WrittenUuid.chars, hd, dropLast_append_brace hbrace]⟩
    · split_ifs at hu with hurn hlength
      · obtain ⟨d, hd⟩ := exists_readGrouped?_iff.1 ⟨u, hu⟩
        refine ⟨.urn (cs.take 9) hurn d, ?_⟩
        rw [WrittenUuid.chars, hd, List.take_append_drop]
      · obtain ⟨d, rfl⟩ := exists_readDigits?_iff.1 ⟨u, hu⟩
        exact ⟨.plain d, rfl⟩
      · obtain ⟨d, rfl⟩ := exists_readGrouped?_iff.1 ⟨u, hu⟩
        exact ⟨.hyphenated d, rfl⟩
  · rintro ⟨w, rfl⟩
    cases w with
    | plain d =>
        obtain ⟨c, cs, -, hcons, -, hc⟩ := exists_cons d
        have hlength := d.length_eq
        rw [WrittenUuid.chars, hcons, read?_of_isHex hc, ← hcons, if_pos hlength]
        exact exists_readDigits?_iff.2 ⟨d, rfl⟩
    | hyphenated d =>
        rw [WrittenUuid.chars, read?_grouped]
        exact exists_readGrouped?_iff.2 ⟨d, rfl⟩
    | braced d =>
        rw [WrittenUuid.chars, read?_braced]
        exact exists_readGrouped?_iff.2 ⟨d, rfl⟩
    | urn scheme hscheme d =>
        rw [WrittenUuid.chars, read?_urn hscheme]
        exact exists_readGrouped?_iff.2 ⟨d, rfl⟩

/-! ## Written identifiers -/

theorem value_lt_pow (u : Uuid) : u.value < 16 ^ 32 :=
  Nat.lt_of_lt_of_eq u.value_lt (by decide)

/-- The digits of an identifier. -/
def digits (u : Uuid) : HexDigits where
  chars := hexDigits 32 u.value
  length_eq := length_hexDigits 32 u.value
  isHex := (exists_hexNumber?_iff _).1 ⟨u.value, hexNumber?_hexDigits u.value_lt_pow⟩

/-- What is written for an identifier is read as it. -/
theorem read?_chars (u : Uuid) : read? u.chars = some u := by
  have hungrouped : ungrouped? groupSizes (grouped groupSizes u.digits.chars) =
      some u.digits.chars := ungrouped?_eq_some_iff.2 ⟨u.digits.length_eq, rfl⟩
  have hdigits : readDigits? u.digits.chars = some u := by
    rw [readDigits?, if_pos u.digits.length_eq, digits, hexNumber?_hexDigits u.value_lt_pow,
      Option.bind_some, ofValue?, dif_pos u.value_lt]
  calc read? u.chars = readGrouped? (grouped groupSizes u.digits.chars) := read?_grouped u.digits
    _ = some u := by rw [readGrouped?, hungrouped, Option.bind_some, hdigits]

end Criteria.Uuid
