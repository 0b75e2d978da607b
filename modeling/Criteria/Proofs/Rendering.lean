import Criteria.Value
import Criteria.Proofs.Number.Padded
import Criteria.Proofs.Trim
import Criteria.Proofs.Uuid

set_option autoImplicit false

/-! # Characters of rendered values

A text is rendered in quotes. All other values are rendered without blanks, quotes and brackets: in
characters from the plus sign to the small `z` (`Value.isSolid_chars`), among which are the ASCII
letters and digits, the minus sign, the point and the colon. -/

namespace Criteria

open Number Text Time

/-! ## Solid characters -/

/-- A character from the plus sign to the small `z`. -/
def Text.isSolid (c : Char) : Bool := '+' ≤ c && c ≤ 'z'

theorem Text.toNat_of_isSolid {c : Char} (h : isSolid c = true) : 43 ≤ c.toNat ∧ c.toNat ≤ 122 := by
  rw [isSolid, Bool.and_eq_true, decide_eq_true_eq, decide_eq_true_eq] at h
  exact h

theorem Text.not_isBlank_of_isSolid {c : Char} (h : isSolid c = true) : isBlank c = false := by
  obtain ⟨hlow, hhigh⟩ := toNat_of_isSolid h
  simp only [isBlank, blankRanges, List.any_cons, List.any_nil, Bool.or_false, Bool.or_eq_false_iff,
    Bool.and_eq_false_iff, decide_eq_false_iff_not]
  omega

/-- All characters are solid. -/
def Text.Solid (cs : List Char) : Prop := ∀ c ∈ cs, isSolid c = true

instance (cs : List Char) : Decidable (Solid cs) :=
  decidable_of_iff (cs.all isSolid = true) List.all_eq_true

namespace Text.Solid

variable {c : Char} {cs ds : List Char}

@[simp] theorem nil : Solid [] := by simp [Solid]

@[simp] theorem cons_iff : Solid (c :: cs) ↔ isSolid c = true ∧ Solid cs := List.forall_mem_cons

@[simp] theorem append_iff : Solid (cs ++ ds) ↔ Solid cs ∧ Solid ds := List.forall_mem_append

theorem of_between {low high : Char} (hlow : '+' ≤ low) (hhigh : high ≤ 'z')
    (h : low ≤ c ∧ c ≤ high) : isSolid c = true := by
  rw [isSolid, Bool.and_eq_true, decide_eq_true_eq, decide_eq_true_eq]
  exact ⟨Char.le_trans hlow h.1, Char.le_trans h.2 hhigh⟩

theorem of_isDigit (h : ∀ c ∈ cs, c.isDigit = true) : Solid cs := by
  intro c hc
  have hdigit := h c hc
  simp only [Char.isDigit, Bool.and_eq_true, decide_eq_true_eq] at hdigit
  exact of_between (show '+' ≤ '0' by decide) (show '9' ≤ 'z' by decide) hdigit

theorem of_isHex (h : ∀ c ∈ cs, IsHex c) : Solid cs := by
  intro c hc
  rcases h c hc with hdigit | hsmall | hcapital
  · exact of_between (by decide) (by decide) hdigit
  · exact of_between (by decide) (by decide) hsmall
  · exact of_between (by decide) (by decide) hcapital

theorem take (h : Solid cs) (n : Nat) : Solid (cs.take n) :=
  fun c hc => h c (List.mem_of_mem_take hc)

theorem drop (h : Solid cs) (n : Nat) : Solid (cs.drop n) :=
  fun c hc => h c (List.mem_of_mem_drop hc)

/-- Nothing is dropped at the ends. -/
theorem trim_eq (h : Solid cs) : trim cs = cs :=
  trim_of_not_isBlank fun c hc => not_isBlank_of_isSolid (h c hc)

end Text.Solid

/-! ## Numbers -/

theorem solid_natDigits (n : Nat) : Solid (natDigits n) :=
  .of_isDigit fun _ => Payload.isDigit_natDigits

theorem solid_zeros (k : Nat) : Solid (List.replicate k '0') :=
  .of_isDigit fun _ => Payload.isDigit_zeros

theorem solid_padded (width n : Nat) : Solid (padded width n) :=
  .of_isDigit fun _ => isDigit_of_mem_padded

theorem solid_intDigits (i : Int) : Solid (intDigits i) := by
  rw [intDigits]
  split
  · exact Solid.cons_iff.2 ⟨by decide, solid_natDigits _⟩
  · exact solid_natDigits _

theorem solid_sign (negative : Bool) : Solid (if negative then ['-'] else []) := by
  cases negative with
  | true => exact Solid.cons_iff.2 ⟨by decide, Solid.nil⟩
  | false => exact Solid.nil

theorem Number.Decimal.solid_chars (d : Decimal) : Solid d.chars := by
  have hdigits := solid_padded (d.scale + 1) d.coefficient
  simp only [chars, Solid.append_iff]
  refine ⟨⟨solid_sign d.negative, hdigits.take _⟩, ?_⟩
  split
  · exact Solid.nil
  · exact Solid.cons_iff.2 ⟨by decide, hdigits.drop _⟩

theorem Number.Binary64.solid_positionally {ds : List Char} (h : Solid ds) (point : Int) :
    Solid (Layout.plain.positionally ds point) := by
  rw [Layout.positionally]
  split
  · simp only [List.cons_append, Solid.cons_iff, Solid.append_iff]
    exact ⟨by decide, by decide, solid_zeros _, h⟩
  · split
    · simp only [Solid.append_iff]
      exact ⟨⟨h, solid_zeros _⟩, Solid.nil⟩
    · simp only [Solid.append_iff, Solid.cons_iff]
      exact ⟨h.take _, by decide, h.drop _⟩

theorem Number.Binary64.solid_write (x : Binary64) : Solid (Layout.plain.write x) := by
  cases x with
  | nan => exact (by decide : Solid "NaN".toList)
  | infinite negative =>
      cases negative with
      | true => exact (by decide : Solid "-inf".toList)
      | false => exact (by decide : Solid "inf".toList)
  | finite negative m s hc =>
      rw [Layout.write]
      split
      · simp only [Solid.append_iff, Solid.cons_iff]
        exact ⟨solid_sign negative, by decide, Solid.nil⟩
      · simp only [Solid.append_iff]
        exact ⟨solid_sign negative, solid_positionally (solid_natDigits _) _⟩

/-! ## Dates, moments and identifiers -/

theorem Time.Date.solid_chars (d : Date) : Solid d.chars := by
  have hyear : Solid (yearChars d.year) := by
    rw [yearChars]
    split
    · exact solid_padded _ _
    · refine Solid.cons_iff.2 ⟨?_, solid_padded _ _⟩
      split <;> decide
  simp only [chars, Solid.append_iff, Solid.cons_iff]
  exact ⟨⟨hyear, by decide, solid_padded _ _⟩, by decide, solid_padded _ _⟩

theorem Time.Timestamp.solid_fractionChars (nano : Nat) : Solid (fractionChars nano) := by
  have hpoint : ∀ width n, Solid ('.' :: padded width n) := fun width n =>
    Solid.cons_iff.2 ⟨by decide, solid_padded width n⟩
  rw [fractionChars]
  split
  · exact Solid.nil
  · split
    · exact hpoint _ _
    · split
      · exact hpoint _ _
      · exact hpoint _ _

theorem Time.Timestamp.solid_chars (t : Timestamp) : Solid t.chars := by
  simp only [chars, Solid.append_iff, Solid.cons_iff]
  exact ⟨⟨⟨⟨⟨t.date.solid_chars, by decide, solid_padded _ _⟩, by decide, solid_padded _ _⟩,
    by decide, solid_padded _ _⟩, solid_fractionChars _⟩, by decide⟩

theorem Uuid.solid_grouped {sizes : List Nat} {cs : List Char} (h : Solid cs) :
    Solid (grouped sizes cs) := by
  induction sizes generalizing cs with
  | nil => exact h
  | cons n sizes ih =>
      cases sizes with
      | nil => exact h
      | cons m sizes =>
          rw [grouped]
          · simp only [Solid.append_iff, Solid.cons_iff]
            exact ⟨h.take n, by decide, ih (h.drop n)⟩
          · simp

theorem Uuid.solid_chars (u : Uuid) : Solid u.chars := solid_grouped (.of_isHex u.digits.isHex)

/-! ## Values -/

/-- **Characters of values.** A value that is no text is rendered in solid characters. -/
theorem Value.solid_chars {v : Value} (h : ∀ s, v ≠ .text s) : Solid v.chars := by
  cases v with
  | null => decide
  | bool b =>
      cases b with
      | true => exact (by decide : Solid "true".toList)
      | false => exact (by decide : Solid "false".toList)
  | int i => exact solid_intDigits i.toInt
  | float x => exact x.solid_write
  | decimal d => exact d.solid_chars
  | text s => exact absurd rfl (h s)
  | timestamp t => exact t.solid_chars
  | date d => exact d.solid_chars
  | uuid u => exact u.solid_chars

/-- Blanks around a value that is no text are dropped when it is read. -/
theorem Value.trim_around {v : Value} (h : ∀ s, v ≠ .text s) {before after : List Char}
    (hbefore : ∀ c ∈ before, isBlank c = true) (hafter : ∀ c ∈ after, isBlank c = true) :
    trim (before ++ (v.chars ++ after)) = v.chars := by
  rw [trim_between hbefore hafter, (solid_chars h).trim_eq]

end Criteria
