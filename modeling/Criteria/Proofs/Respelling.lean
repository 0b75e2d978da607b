import Criteria.Proofs.Decision

set_option autoImplicit false

/-! # Advice on an unknown property

A criterion whose property is not in the field table is refused with advice: the names of the table,
and, if one of them is the property but for the case of ASCII letters, the first such name. The
table is searched twice for this, and the two searches go by different equalities. The look-up is
exact and has to miss; the search for a spelling may still hit, and names of the table that differ
in case alone are told apart by their order (`FirstSpelling`). Whatever it hits is a name of the
table, so the criterion with that name in place of its property passes the look-up, whatever else is
wrong with it (`unknown_property_advice`); in a list the next unknown property is further on. -/

namespace Criteria

open Text

/-! ## The first spelling of a name -/

/-- Of the names in the list that are the property up to the case of ASCII letters, this is the
first. -/
def FirstSpelling (names : List String) (property name : String) : Prop :=
  ∃ before after, names = before ++ name :: after ∧ SameUpToCase name property ∧
    ∀ other ∈ before, ¬SameUpToCase other property

section

variable {names : List String} {property name : String}

theorem FirstSpelling.mem (h : FirstSpelling names property name) : name ∈ names := by
  obtain ⟨before, after, rfl, -, -⟩ := h
  simp

theorem find?_sameLetters_eq_some_iff :
    (names.find? fun name => sameLetters name property) = some name ↔
      FirstSpelling names property name := by
  rw [List.find?_eq_some_iff_append, FirstSpelling]
  simp only [Bool.not_eq_eq_eq_not, Bool.not_true, ← Bool.not_eq_true,
    sameLetters_iff_sameUpToCase]
  constructor
  · rintro ⟨hsame, before, after, hnames, hbefore⟩
    exact ⟨before, after, hnames, hsame, hbefore⟩
  · rintro ⟨before, after, hnames, hsame, hbefore⟩
    exact ⟨hsame, before, after, hnames, hbefore⟩

theorem exists_firstSpelling_iff :
    (∃ name, FirstSpelling names property name) ↔ ∃ name ∈ names, SameUpToCase name property := by
  simp only [← find?_sameLetters_eq_some_iff, ← Option.isSome_iff_exists, List.find?_isSome,
    sameLetters_iff_sameUpToCase]

end

/-! ## Names in a row -/

/-- The text is the names in a row: each stands behind those before it and ahead of those after it,
with a comma and a blank between two names. -/
def Enumerates (names : List String) (text : String) : Prop :=
  (names = [] → text = "") ∧
    ∀ before name after, names = before ++ name :: after →
      text = String.join (before.map (· ++ ", ")) ++ name ++ String.join (after.map (", " ++ ·))

theorem intercalate_cons_eq_join (separator name : String) (after : List String) :
    separator.intercalate (name :: after) = name ++ String.join (after.map (separator ++ ·)) := by
  induction after generalizing name with
  | nil => simp
  | cons next after ih =>
      rw [String.intercalate_cons_cons, ih, List.map_cons, String.join_cons]
      simp only [String.append_assoc]

theorem intercalate_append_cons (separator name : String) (before after : List String) :
    separator.intercalate (before ++ name :: after) =
      String.join (before.map (· ++ separator)) ++ name ++
        String.join (after.map (separator ++ ·)) := by
  induction before with
  | nil => simp [intercalate_cons_eq_join]
  | cons first before ih =>
      have hne : before ++ name :: after ≠ [] := by simp
      rw [List.cons_append, String.intercalate_cons_of_ne_nil hne, ih, List.map_cons,
        String.join_cons]
      simp only [String.append_assoc]

theorem enumerates_intercalate (names : List String) :
    Enumerates names (", ".intercalate names) := by
  constructor
  · rintro rfl
    exact String.intercalate_nil
  · rintro before name after rfl
    exact intercalate_append_cons ", " name before after

/-! ## The report on an unknown property -/

/-- The advice to spell the property in this way. -/
def Suggestion.spelling (name : String) : Suggestion :=
  ⟨"Property names are case-sensitive; did you mean `" ++ name ++ "`?", none⟩

/-- The name can be read off the advice, whatever characters it has. -/
theorem Suggestion.spelling_inj {name name' : String} :
    Suggestion.spelling name = .spelling name' ↔ name = name' := by
  constructor
  · intro h
    obtain ⟨htext, -⟩ := Suggestion.mk.inj h
    exact (String.append_right_inj _).1 ((String.append_left_inj _).1 htext)
  · exact congrArg Suggestion.spelling

namespace Report

variable (entity property : String) (available : List String)

theorem suggestions_unknownProperty :
    (unknownProperty entity property available).context.suggestions =
      ((available.find? fun name => sameLetters name property).map Suggestion.spelling).toList := by
  unfold unknownProperty
  cases available.find? fun name => sameLetters name property <;> rfl

theorem help_unknownProperty :
    (unknownProperty entity property available).context.help =
      some ("Available properties: " ++ ", ".intercalate available) := by
  unfold unknownProperty
  cases available.find? fun name => sameLetters name property <;> rfl

variable {entity property available}

theorem spelling_mem_suggestions_iff {name : String} :
    .spelling name ∈ (unknownProperty entity property available).context.suggestions ↔
      FirstSpelling available property name := by
  rw [suggestions_unknownProperty, Option.mem_toList, Option.map_eq_some_iff]
  simp only [Suggestion.spelling_inj, exists_eq_right, find?_sameLetters_eq_some_iff]

theorem suggestions_of_firstSpelling {name : String}
    (h : FirstSpelling available property name) :
    (unknownProperty entity property available).context.suggestions = [.spelling name] := by
  rw [suggestions_unknownProperty, find?_sameLetters_eq_some_iff.2 h]
  rfl

theorem suggestions_ne_nil_iff :
    (unknownProperty entity property available).context.suggestions ≠ [] ↔
      ∃ name ∈ available, SameUpToCase name property := by
  rw [suggestions_unknownProperty, ne_eq, Option.toList_eq_nil_iff, Option.map_eq_none_iff,
    ← exists_firstSpelling_iff]
  simp only [← find?_sameLetters_eq_some_iff, Option.ne_none_iff_exists', ← ne_eq]

/-- What the report on an unknown property says about the names that there are. -/
structure Advises (r : Report) (names : List String) (property : String) : Prop where
  code : r.code = .unknownProperty
  /-- There is a suggestion exactly if one of the names is the property up to case. -/
  suggests : r.context.suggestions ≠ [] ↔ ∃ name ∈ names, SameUpToCase name property
  /-- There is one suggestion at most, and it gives the first of these names. -/
  spelling : r.context.suggestions ≠ [] → ∃ name, FirstSpelling names property name ∧
    r.context.suggestions = [.spelling name]
  help : ∃ text, r.context.help = some ("Available properties: " ++ text) ∧ Enumerates names text

theorem advises_unknownProperty (entity property : String) (available : List String) :
    (unknownProperty entity property available).Advises available property where
  code := code_unknownProperty entity property available
  suggests := suggestions_ne_nil_iff
  spelling := by
    intro hne
    obtain ⟨name, hname⟩ := exists_firstSpelling_iff.2 (suggestions_ne_nil_iff.1 hne)
    exact ⟨name, hname, suggestions_of_firstSpelling hname⟩
  help := ⟨_, help_unknownProperty entity property available, enumerates_intercalate available⟩

end Report

/-! ## Taking the advice -/

section

variable {s : Schema} {c : Criterion}

theorem Criterion.failsWith_unknownProperty_iff_notMem :
    c.FailsWith s .unknownProperty ↔ c.property ∉ s.fieldNames := by
  rw [failsWith_unknownProperty_iff]
  simp [Schema.fieldNames]

theorem Criterion.filter_of_notMem (h : c.property ∉ s.fieldNames) :
    c.filter s = .error (.unknownProperty s.name c.property s.fieldNames) := by
  refine filter_eq_error_iff.2 (.property (Schema.field?_eq_none_iff.2 ?_))
  intro field hfield hname
  exact h (hname ▸ List.mem_map_of_mem hfield)

variable {env : Environment} {before after : List Criterion}

/-- Behind criteria that can be compiled, an unknown property is the first fault. -/
theorem compile_of_notMem (hbefore : ∀ b ∈ before, ∃ f, b.filter s = .ok f)
    (hc : c.property ∉ s.fieldNames) :
    (compile env s (before ++ c :: after)).outcome =
      .error ((Report.unknownProperty s.name c.property s.fieldNames).atIndex before.length) := by
  refine compile_error_iff.2 ⟨before.length, _, ⟨⟨c, by simp, c.filter_of_notMem hc⟩, ?_⟩, rfl⟩
  intro j d hj hd
  rw [List.getElem?_append_left hj] at hd
  exact hbefore d (List.mem_of_getElem? hd)

/-- Where the criteria before a position can be compiled and the one at it does not fail for its
property, an unknown property that the list is refused for is further on. -/
theorem lt_index_of_compile_unknownProperty (hbefore : ∀ b ∈ before, ∃ f, b.filter s = .ok f)
    (hc : ¬c.FailsWith s .unknownProperty) {r : Report}
    (hr : (compile env s (before ++ c :: after)).outcome = .error r)
    (hcode : r.code = .unknownProperty) :
    ∃ i, r.context.index = some i ∧ before.length < i := by
  obtain ⟨i, r, ⟨⟨d, hd, hfilter⟩, -⟩, rfl⟩ := compile_error_iff.1 hr
  refine ⟨i, rfl, ?_⟩
  rcases Nat.lt_trichotomy i before.length with hlt | rfl | hgt
  · rw [List.getElem?_append_left hlt] at hd
    obtain ⟨f, hf⟩ := hbefore d (List.mem_of_getElem? hd)
    cases hf.symm.trans hfilter
  · obtain rfl : c = d := by simpa using hd
    exact absurd ⟨r, hfilter, hcode⟩ hc
  · exact hgt

end

/-- **Advice on an unknown property, and what comes of taking it.** A criterion whose property is
not in the field table is refused for it. The report carries a suggestion if and only if a name of
the table is the property up to the case of ASCII letters, and then this one alone, the first such
name; its help text is the names of the table in order. With the suggested name for its property the
criterion is never again refused for an unknown property, though it may be for another fault. In a
list, behind criteria that can be compiled, the report is the same but for the position, and once
the advice is taken the next unknown property is further on. -/
theorem unknown_property_advice {s : Schema} {c : Criterion}
    (hunknown : c.property ∉ s.fieldNames) :
    ∃ r, c.filter s = .error r ∧ r.Advises s.fieldNames c.property ∧
      (∀ name, .spelling name ∈ r.context.suggestions →
        ¬({ c with property := name } : Criterion).FailsWith s .unknownProperty) ∧
      ∀ (env : Environment) (before after : List Criterion),
        (∀ b ∈ before, ∃ f, b.filter s = .ok f) →
        (compile env s (before ++ c :: after)).outcome = .error (r.atIndex before.length) ∧
        ∀ name, .spelling name ∈ r.context.suggestions → ∀ r',
          (compile env s (before ++ { c with property := name } :: after)).outcome = .error r' →
          r'.code = .unknownProperty → ∃ i, r'.context.index = some i ∧ before.length < i := by
  have hknown : ∀ name, .spelling name ∈
      (Report.unknownProperty s.name c.property s.fieldNames).context.suggestions →
        ¬({ c with property := name } : Criterion).FailsWith s .unknownProperty := by
    intro name hname
    rw [Criterion.failsWith_unknownProperty_iff_notMem, not_not]
    exact (Report.spelling_mem_suggestions_iff.1 hname).mem
  refine ⟨_, c.filter_of_notMem hunknown, Report.advises_unknownProperty _ _ _, hknown, ?_⟩
  intro env before after hbefore
  refine ⟨compile_of_notMem hbefore hunknown, ?_⟩
  intro name hname r' hr' hcode
  exact lt_index_of_compile_unknownProperty hbefore (hknown name hname) hr' hcode

/-- A table with names that differ in case alone, and in the case of a letter beyond ASCII. -/
def sizes : Schema :=
  ⟨"Size", [⟨"Id", .int, false⟩, ⟨"Grösse", .text, false⟩, ⟨"GRÖSSE", .int, false⟩,
    ⟨"GrÖsse", .decimal, false⟩], "Id"⟩

/-- The second name is another, for its small `ö`, and the fourth comes too late. The third mends
the criterion, but not the one after it. -/
theorem unknown_property_advice_sizes :
    "grÖsse" ∉ sizes.fieldNames ∧
      (∀ b ∈ [(⟨"Id", "=", .int 7⟩ : Criterion)], ∃ f, b.filter sizes = .ok f) ∧
      ∃ r, (⟨"grÖsse", ">", .int 40⟩ : Criterion).filter sizes = .error r ∧
        r.code = .unknownProperty ∧ r.context.suggestions = [.spelling "GRÖSSE"] ∧
        r.context.help = some "Available properties: Id, Grösse, GRÖSSE, GrÖsse" ∧
        ¬(⟨"GRÖSSE", ">", .int 40⟩ : Criterion).FailsWith sizes .unknownProperty ∧
        (compile {} sizes [⟨"Id", "=", .int 7⟩, ⟨"grÖsse", ">", .int 40⟩,
          ⟨"Groesse", "=", .null⟩]).outcome = .error (r.atIndex 1) ∧
        ∃ r' i, (compile {} sizes [⟨"Id", "=", .int 7⟩, ⟨"GRÖSSE", ">", .int 40⟩,
          ⟨"Groesse", "=", .null⟩]).outcome = .error r' ∧ r'.code = .unknownProperty ∧
            r'.context.index = some i ∧ 1 < i := by
  have hunknown : "grÖsse" ∉ sizes.fieldNames := by decide
  have hfirst : ∀ b ∈ [(⟨"Id", "=", .int 7⟩ : Criterion)], ∃ f, b.filter sizes = .ok f := by
    rw [List.forall_mem_singleton]
    exact ⟨_, rfl⟩
  have hrefused : (compile {} sizes [⟨"Id", "=", .int 7⟩, ⟨"GRÖSSE", ">", .int 40⟩,
      ⟨"Groesse", "=", .null⟩]).outcome = .error _ := rfl
  obtain ⟨r, hr, hadvises, hmended, hlist⟩ :=
    unknown_property_advice (c := ⟨"grÖsse", ">", .int 40⟩) hunknown
  have hspelling : FirstSpelling sizes.fieldNames "grÖsse" "GRÖSSE" :=
    find?_sameLetters_eq_some_iff.1 (by decide)
  have hsuggestions : r.context.suggestions = [.spelling "GRÖSSE"] := by
    obtain ⟨name, hname, hspelled⟩ := hadvises.spelling
      (hadvises.suggests.2 (exists_firstSpelling_iff.1 ⟨_, hspelling⟩))
    rw [← find?_sameLetters_eq_some_iff] at hname hspelling
    rw [hspelled, Option.some.inj (hname.symm.trans hspelling)]
  have hname : Suggestion.spelling "GRÖSSE" ∈ r.context.suggestions := by
    rw [hsuggestions]
    exact List.mem_singleton_self _
  have hhelp : r.context.help = some "Available properties: Id, Grösse, GRÖSSE, GrÖsse" := by
    obtain ⟨text, htext, -, hnames⟩ := hadvises.help
    rw [htext, hnames [] "Id" ["Grösse", "GRÖSSE", "GrÖsse"] rfl]
    decide
  obtain ⟨hcompile, hnext⟩ := hlist {} _ [⟨"Groesse", "=", .null⟩] hfirst
  obtain ⟨i, hindex, hlt⟩ := hnext _ hname _ hrefused rfl
  exact ⟨hunknown, hfirst, r, hr, hadvises.code, hsuggestions, hhelp, hmended _ hname, hcompile,
    _, i, hrefused, rfl, hindex, hlt⟩

end Criteria
