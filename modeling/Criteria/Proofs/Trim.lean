import Criteria.Text.Blank
import Mathlib.Data.List.Basic
import Mathlib.Data.List.TakeWhile

set_option autoImplicit false

/-! # Trimmed texts

Trimming drops the blanks at both ends and nothing else: a text that neither starts nor ends with a
blank is left as it is (`trim_eq_self`), and blanks put around a text make no difference
(`trim_between`). -/

namespace Criteria.Text

variable {before after cs : List Char}

theorem trimStart_eq_self (h : ∀ c ∈ cs.head?, isBlank c = false) : trimStart cs = cs := by
  cases cs with
  | nil => rfl
  | cons c cs => exact List.dropWhile_cons_of_neg (by simp [h c rfl])

theorem not_isBlank_of_head?_trimStart : ∀ c ∈ (trimStart cs).head?, isBlank c = false := by
  intro c hc
  have hnot := List.head?_dropWhile_not isBlank cs
  rw [trimStart] at hc
  rw [Option.mem_def.1 hc] at hnot
  simpa using hnot

/-- What is trimmed does not start with a blank. -/
theorem not_isBlank_of_head?_trim : ∀ c ∈ (trim cs).head?, isBlank c = false := by
  intro c hc
  -- it has the first character of the text behind its blanks, if it has any
  have hprefix : trim cs <+: trimStart cs := by
    rw [← List.reverse_suffix, trim, List.reverse_reverse]
    exact List.dropWhile_suffix isBlank
  obtain ⟨tail, htail⟩ := hprefix
  have hhead : c ∈ (trimStart cs).head? := by
    rw [← htail, Option.mem_def, List.head?_append, Option.mem_def.1 hc, Option.some_or]
  exact not_isBlank_of_head?_trimStart c hhead

/-- A text without blanks at either end is left as it is. -/
theorem trim_eq_self (hstart : ∀ c ∈ cs.head?, isBlank c = false)
    (hend : ∀ c ∈ cs.getLast?, isBlank c = false) : trim cs = cs := by
  rw [trim, trimStart_eq_self hstart, trimStart_eq_self (by simpa using hend), List.reverse_reverse]

theorem trim_of_not_isBlank (h : ∀ c ∈ cs, isBlank c = false) : trim cs = cs :=
  trim_eq_self (fun c hc => h c (List.mem_of_head? hc)) fun c hc => h c (List.mem_of_getLast? hc)

/-- Whatever stands between two parts without blanks. -/
theorem trim_of_ends (hbefore : ∀ c ∈ before, isBlank c = false) (hne : before ≠ [])
    (hafter : ∀ c ∈ after, isBlank c = false) (hne' : after ≠ []) (cs : List Char) :
    trim (before ++ (cs ++ after)) = before ++ (cs ++ after) := by
  apply trim_eq_self
  · intro c hc
    rw [List.head?_append_of_ne_nil _ hne] at hc
    exact hbefore c (List.mem_of_head? hc)
  · intro c hc
    rw [← List.append_assoc, List.getLast?_append_of_ne_nil _ hne'] at hc
    exact hafter c (List.mem_of_getLast? hc)

theorem trim_idempotent (cs : List Char) : trim (trim cs) = trim cs := by
  refine trim_eq_self not_isBlank_of_head?_trim ?_
  intro c hc
  rw [trim, List.getLast?_reverse] at hc
  exact not_isBlank_of_head?_trimStart c hc

theorem trimStart_append (h : ∀ c ∈ before, isBlank c = true) :
    trimStart (before ++ cs) = trimStart cs := List.dropWhile_append_of_pos h

theorem trimStart_eq_nil_iff : trimStart cs = [] ↔ ∀ c ∈ cs, isBlank c = true :=
  List.dropWhile_eq_nil_iff

/-- Nothing is left of a text exactly if all its characters are blank. -/
theorem trim_eq_nil_iff : trim cs = [] ↔ ∀ c ∈ cs, isBlank c = true := by
  rw [trim, List.reverse_eq_nil_iff]
  constructor
  · intro h
    cases hstart : trimStart cs with
    | nil => exact trimStart_eq_nil_iff.1 hstart
    | cons c tail =>
        -- the first character that is left is not blank, from whichever end it is reached
        have hblank : isBlank c = true := trimStart_eq_nil_iff.1 h c (by simp [hstart])
        have hnot := @not_isBlank_of_head?_trimStart cs c (by simp [hstart])
        simp [hblank] at hnot
  · intro h
    rw [trimStart_eq_nil_iff.2 h]
    rfl

/-- Blanks around a text are dropped with those that it has at its ends. -/
theorem trim_between (hbefore : ∀ c ∈ before, isBlank c = true)
    (hafter : ∀ c ∈ after, isBlank c = true) (cs : List Char) :
    trim (before ++ (cs ++ after)) = trim cs := by
  rw [trim, trim, trimStart_append hbefore]
  cases hstart : trimStart cs with
  | nil =>
      have hblank : ∀ c ∈ cs ++ after, isBlank c = true := by
        simpa [or_imp, forall_and] using ⟨trimStart_eq_nil_iff.1 hstart, hafter⟩
      rw [trimStart_eq_nil_iff.2 hblank]
  | cons c tail =>
      have hkept : trimStart (cs ++ after) = c :: tail ++ after := by
        rw [trimStart] at hstart
        simp [trimStart, List.dropWhile_append, hstart]
      have hreverse : ∀ c ∈ after.reverse, isBlank c = true := by simpa using hafter
      rw [hkept, List.reverse_append, trimStart_append hreverse]

end Criteria.Text
