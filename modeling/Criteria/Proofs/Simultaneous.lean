import Criteria.Proofs.Expansion

set_option autoImplicit false

/-! # Replacing references all at once

Where no name and no value has a dollar sign, and values are not empty and have no braces, replacing
one reference neither makes, nor ends, nor touches an occurrence of another one. Then each step of
`expand` fills in one more name (`substitute_fill_of_plain`), whatever was filled in before, so the
order in which the references are replaced does not matter, nor how often: the result is the text
with all of its references replaced at once (`expand_simultaneous`). -/

namespace Criteria.Settings

variable {lookup : String → Option String} {text : List Char}

/-- A value with nothing in it that a reference is made of. -/
structure Plain (value : List Char) : Prop where
  ne_nil : value ≠ []
  dollar : '$' ∉ value
  opening : '\x7b' ∉ value
  closing : '\x7d' ∉ value

instance (value : List Char) : Decidable (Plain value) :=
  decidable_of_iff (value ≠ [] ∧ '$' ∉ value ∧ '\x7b' ∉ value ∧ '\x7d' ∉ value)
    ⟨fun ⟨hne, hdollar, hopening, hclosing⟩ => ⟨hne, hdollar, hopening, hclosing⟩,
      fun h => ⟨h.ne_nil, h.dollar, h.opening, h.closing⟩⟩

theorem Plain.harmless {value : List Char} (h : Plain value) : Harmless value where
  ne_nil := h.ne_nil
  start hstart := h.opening (List.mem_of_mem_head? hstart)
  opening hinside := h.dollar (hinside.subset (by simp))
  finish hfinish := h.dollar (List.mem_of_mem_getLast? hfinish)

/-- No reference opens inside of a name without dollar signs. -/
theorem not_opens_of_not_mem {m n : List Char} (h : '$' ∉ m) : ¬ '$' :: '\x7b' :: n <:+ m :=
  fun hsuffix => h (hsuffix.subset (by simp))

/-- One step: whichever names have their values, one more name of the text gets its value. -/
theorem substitute_fill_of_plain (hnames : ∀ n ∈ references 0 text, '$' ∉ n)
    (hvalues : ∀ n ∈ references 0 text, ∀ v, lookup (String.ofList n) = some v → Plain v.toList)
    {done : List (List Char)} {name : List Char} (hdone : ∀ n ∈ done, n ∈ references 0 text)
    (hname : name ∈ references 0 text) :
    substitute lookup (fill (valuesOf lookup done) (pieces 0 text)) name =
      fill (valuesOf lookup (done ++ [name])) (pieces 0 text) := by
  obtain ⟨hne, hclose⟩ := name_of_mem_references hname
  refine substitute_fill hne hclose ?_ ?_
  · intro _ m w
    refine harmless_of_valuesOf ?_
    intro m hm v hv
    obtain ⟨value, hvalue, rfl⟩ := Option.map_eq_some_iff.1 hv
    exact (hvalues m (hdone m hm) value hvalue).harmless
  · intro _ m hm _
    exact not_opens_of_not_mem (hnames m ((mem_references_iff text 0).2 hm))

/-- **References are replaced all at once.** If no name that a text refers to has a dollar sign, and
each of these names that is set has a value that is not empty and has no dollar sign and no braces,
then expanding the text gives the text in which each reference that is set is replaced by its value
and everything else stays in place. The same comes out if the references are replaced in any other
order, each any number of times. -/
theorem expand_simultaneous (hnames : ∀ n ∈ references 0 text, '$' ∉ n)
    (hvalues : ∀ n ∈ references 0 text, ∀ v, lookup (String.ofList n) = some v → Plain v.toList) :
    expand lookup text = onePass lookup text ∧
      ∀ names : List (List Char), (∀ n, n ∈ names ↔ n ∈ references 0 text) →
        names.foldl (substitute lookup) text = onePass lookup text := by
  have hany : ∀ names : List (List Char), (∀ n, n ∈ names ↔ n ∈ references 0 text) →
      names.foldl (substitute lookup) text = onePass lookup text := by
    intro names hsame
    rw [foldl_substitute]
    · refine fill_congr ?_
      intro m hm
      rw [valuesOf, if_pos ((hsame m).2 ((mem_references_iff text 0).2 hm))]
    · intro done name more hsplit
      refine substitute_fill_of_plain hnames hvalues ?_ ((hsame name).1 (by simp [hsplit]))
      intro n hn
      exact (hsame n).1 (by simp [hsplit, hn])
  exact ⟨hany (references 0 text) fun n => Iff.rfl, hany⟩

/-- References behind a dollar sign, next to each other, not set, in braces and repeated, and two
openings that belong to no reference. -/
theorem expand_simultaneous_adjacent :
    let lookup := fun n => List.lookup n [("A", "a b"), ("B", "2")]
    let text := "$$\x7bA\x7d$\x7bB\x7d$\x7b\x7d$\x7bU\x7d\x7b$\x7bA\x7d\x7d$\x7b".toList
    references 0 text = ["A", "B", "U", "A"].map String.toList ∧
      expand lookup text = "$a b2$\x7b\x7d$\x7bU\x7d\x7ba b\x7d$\x7b".toList ∧
      (["U", "B", "B", "A"].map String.toList).foldl (substitute lookup) text =
        "$a b2$\x7b\x7d$\x7bU\x7d\x7ba b\x7d$\x7b".toList := by
  intro lookup text
  have hreferences : references 0 text = ["A", "B", "U", "A"].map String.toList := by
    decide +kernel
  have hnames : ∀ n ∈ references 0 text, '$' ∉ n := by decide +kernel
  have hvalues : ∀ n ∈ references 0 text, ∀ v, lookup (String.ofList n) = some v →
      Plain v.toList := by
    decide +kernel
  have hpass : onePass lookup text = "$a b2$\x7b\x7d$\x7bU\x7d\x7ba b\x7d$\x7b".toList := by
    decide +kernel
  obtain ⟨hexpand, hany⟩ := expand_simultaneous hnames hvalues
  refine ⟨hreferences, hexpand.trans hpass, (hany _ ?_).trans hpass⟩
  intro n
  rw [hreferences]
  simp only [List.map_cons, List.map_nil, List.mem_cons]
  tauto

end Criteria.Settings
