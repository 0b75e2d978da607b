import Criteria.Proofs.Lookup
import Mathlib.Data.List.Nodup

set_option autoImplicit false

/-! # Field tables in order

The check of a field table goes through the names once and ends at the first that it has seen
before. What it has seen are the names before the one at hand, and none of them repeats
(`Schema.firstRepeated?_spec`); so it passes exactly the tables of distinct names, and otherwise
gives the first name that repeats. In a table that is in order every entry is the one that its name
is looked up as, so nothing is hidden by an entry before it, and fetching by identifier cannot fail
for want of the identifying field (`Entity.validate_distinct_fields`). -/

namespace Criteria

/-! ## Repeated names -/

/-- The name at a position occurs before it as well. -/
def RepeatsAt (names : List String) (i : Nat) (name : String) : Prop :=
  names[i]? = some name ∧ name ∈ names.take i

/-- The name at a position is the first that occurs before it as well. -/
def FirstRepeat (names : List String) (i : Nat) (name : String) : Prop :=
  RepeatsAt names i name ∧ ∀ j < i, ∀ other, ¬RepeatsAt names j other

theorem FirstRepeat.unique {names : List String} {i j : Nat} {a b : String}
    (ha : FirstRepeat names i a) (hb : FirstRepeat names j b) : a = b := by
  have hij : i = j := by
    rcases Nat.lt_trichotomy i j with hlt | heq | hlt
    · exact absurd ha.1 (hb.2 i hlt a)
    · exact heq
    · exact absurd hb.1 (ha.2 j hlt b)
  have hname := ha.1.1
  rw [hij, hb.1.1] at hname
  exact (Option.some.inj hname).symm

theorem not_repeatsAt_of_nodup {names : List String} (h : names.Nodup) (i : Nat) (name : String) :
    ¬RepeatsAt names i name := by
  rintro ⟨hi, hbefore⟩
  rw [← List.take_append_drop i names, List.nodup_append] at h
  have hafter : name ∈ names.drop i := by
    rw [List.mem_iff_getElem?]
    exact ⟨0, by rw [List.getElem?_drop, Nat.add_zero, hi]⟩
  exact h.2.2 name hbefore name hafter rfl

/-- The first name that is among those before it. -/
theorem firstRepeat_append {done rest : List String} {name : String} (hdone : done.Nodup)
    (hname : name ∈ done) : FirstRepeat (done ++ name :: rest) done.length name := by
  refine ⟨⟨by simp, by simpa using hname⟩, ?_⟩
  rintro j hj other ⟨hother, hbefore⟩
  refine not_repeatsAt_of_nodup hdone j other ⟨?_, ?_⟩
  · rwa [List.getElem?_append_left hj] at hother
  · rwa [List.take_append_of_le_length (Nat.le_of_lt hj)] at hbefore

namespace Schema

/-- The check of the rest of the names, where those that were seen do not repeat. -/
theorem firstRepeated?_spec (rest : List String) {done : List String} (hdone : done.Nodup) :
    match firstRepeated? done.reverse rest with
    | some name => ∃ i, FirstRepeat (done ++ rest) i name
    | none => (done ++ rest).Nodup := by
  induction rest generalizing done with
  | nil => simpa [firstRepeated?] using hdone
  | cons name rest ih =>
      rw [firstRepeated?]
      by_cases hname : name ∈ done
      · rw [if_pos (by simpa using hname)]
        exact ⟨done.length, firstRepeat_append hdone hname⟩
      · rw [if_neg (by simpa using hname)]
        have hnext : (done ++ [name]).Nodup := by
          rw [← List.concat_eq_append, List.nodup_concat]
          exact ⟨hname, hdone⟩
        simpa using ih hnext

theorem firstRepeated?_eq_some_iff {names : List String} {name : String} :
    firstRepeated? [] names = some name ↔ ∃ i, FirstRepeat names i name := by
  have hspec := firstRepeated?_spec names List.nodup_nil
  rw [List.reverse_nil, List.nil_append] at hspec
  cases hfound : firstRepeated? [] names with
  | none =>
      rw [hfound] at hspec
      refine ⟨nofun, ?_⟩
      rintro ⟨i, hrepeats, -⟩
      exact absurd hrepeats (not_repeatsAt_of_nodup hspec i name)
  | some found =>
      rw [hfound] at hspec
      obtain ⟨i, hi⟩ := hspec
      constructor
      · intro h
        cases h
        exact ⟨i, hi⟩
      · rintro ⟨j, hj⟩
        rw [hi.unique hj]

theorem firstRepeated?_eq_none_iff {names : List String} :
    firstRepeated? [] names = none ↔ names.Nodup := by
  constructor
  · intro hnone
    have hspec := firstRepeated?_spec names List.nodup_nil
    rwa [List.reverse_nil, List.nil_append, hnone] at hspec
  · intro hnodup
    rw [Option.eq_none_iff_forall_ne_some]
    intro name hfound
    obtain ⟨i, hrepeats, -⟩ := firstRepeated?_eq_some_iff.1 hfound
    exact not_repeatsAt_of_nodup hnodup i name hrepeats

/-! ## The check -/

variable {s : Schema}

theorem isSome_field?_iff {name : String} :
    (s.field? name).isSome = true ↔ name ∈ s.fieldNames := by
  rw [field?, List.find?_isSome, fieldNames, List.mem_map]
  simp only [beq_iff_eq]

theorem outcome_validate (s : Schema) : s.validate.outcome = s.check := by
  rw [validate, Traced.outcome_bind, Traced.outcome_ofExcept]
  cases s.check <;> rfl

theorem check_eq_ok_iff :
    s.check = .ok () ↔ s.fieldNames.Nodup ∧ s.idField ∈ s.fieldNames := by
  rw [← firstRepeated?_eq_none_iff, ← isSome_field?_iff, check]
  cases firstRepeated? [] s.fieldNames with
  | some name => simp
  | none => cases (s.field? s.idField).isSome <;> simp

theorem check_eq_error_iff {error : SetupError} :
    s.check = .error error ↔
      (∃ i name, FirstRepeat s.fieldNames i name ∧ error = .duplicateField s.name name) ∨
      s.fieldNames.Nodup ∧ s.idField ∉ s.fieldNames ∧ error = .missingId s.name s.idField := by
  constructor
  · intro h
    rw [check] at h
    split at h
    · next name hname =>
        cases h
        obtain ⟨i, hi⟩ := firstRepeated?_eq_some_iff.1 hname
        exact Or.inl ⟨i, name, hi, rfl⟩
    · next hnone =>
        split at h
        · cases h
        · next hid =>
            cases h
            exact Or.inr ⟨firstRepeated?_eq_none_iff.1 hnone,
              fun hmem => hid (isSome_field?_iff.2 hmem), rfl⟩
  · rintro (⟨i, name, hi, rfl⟩ | ⟨hnames, hid, rfl⟩)
    · rw [check, firstRepeated?_eq_some_iff.2 ⟨i, hi⟩]
    · rw [check, firstRepeated?_eq_none_iff.2 hnames]
      exact if_neg fun hsome => hid (isSome_field?_iff.1 hsome)

/-- The first repetition is reported, before the missing identifying field. -/
example : check ⟨"Crate", [⟨"Name", .text, false⟩, ⟨"Size", .int, false⟩, ⟨"Size", .int, true⟩,
    ⟨"Name", .text, false⟩], "Id"⟩ = .error (.duplicateField "Crate" "Size") := rfl

/-- In a table of distinct names, every entry is the one that its name is looked up as. -/
theorem field?_of_mem (hnames : s.fieldNames.Nodup) {field : Field} (hfield : field ∈ s.fields) :
    s.field? field.name = some field := by
  obtain ⟨found, hfound⟩ := Option.isSome_iff_exists.1
    (isSome_field?_iff.2 (List.mem_map_of_mem hfield))
  have hmem : found ∈ s.fields := List.mem_of_find?_eq_some hfound
  rw [hfound, List.inj_on_of_nodup_map hnames hmem hfield (name_of_field? hfound)]

end Schema

/-! ## Fetching by identifier -/

variable {ρ : Type}

/-- Fetching fails for a denial or for the one criterion on the identifying field. -/
theorem Endpoint.findById_eq_error_iff {env : Environment} {point : Endpoint} {e : Entity ρ}
    {who : Principal} {v : View ρ} {id : Literal} {r : Report} :
    (point.findById env e who v id).outcome = .error r ↔
      point.gate who e.name .read = false ∧ r = .accessDenied e.name "Read" ∨
      point.gate who e.name .read = true ∧
        (Criterion.mk e.idField "=" id).filter e.toSchema = .error r := by
  rw [outcome_findById_eq]
  cases point.gate who e.name .read with
  | false => simp [eq_comm]
  | true => cases (Criterion.mk e.idField "=" id).filter e.toSchema <;> simp [Except.map]

/-- **A field table in order has distinct names, the identifying field among them.** A table that is
not is refused for the first name that occurs before it as well, and for a missing identifying field
only if there is none. In a table in order no entry hides another, and fetching by identifier fails
only for a denial or for a literal that is no value of the identifying field. -/
theorem Entity.validate_distinct_fields (e : Entity ρ) :
    (e.validate.outcome = .ok () ↔ e.fieldNames.Nodup ∧ e.idField ∈ e.fieldNames) ∧
    (∀ error, e.validate.outcome = .error error ↔
      (∃ i name, FirstRepeat e.fieldNames i name ∧ error = .duplicateField e.name name) ∨
      e.fieldNames.Nodup ∧ e.idField ∉ e.fieldNames ∧ error = .missingId e.name e.idField) ∧
    (e.validate.outcome = .ok () →
      (∀ field ∈ e.fields, e.field? field.name = some field) ∧
      ∀ (env : Environment) (point : Endpoint) (who : Principal) (v : View ρ) (id : Literal)
        (r : Report), (point.findById env e who v id).outcome = .error r →
          point.gate who e.name .read = false ∧ r = .accessDenied e.name "Read" ∨
          ∃ field error, e.field? e.idField = some field ∧ id.coerce field = .error error ∧
            r = ((Report.invalidValue e.name field.name error.message).withOperator
              "=").withSource (.coercion error)) := by
  rw [Schema.outcome_validate]
  refine ⟨Schema.check_eq_ok_iff, fun error => Schema.check_eq_error_iff, ?_⟩
  intro hcheck
  obtain ⟨hnames, hid⟩ := Schema.check_eq_ok_iff.1 hcheck
  refine ⟨fun field => Schema.field?_of_mem hnames, ?_⟩
  intro env point who v id r hr
  rcases Endpoint.findById_eq_error_iff.1 hr with hdenied | ⟨-, hfilter⟩
  · exact Or.inl hdenied
  · rcases Criterion.filter_equals_eq_error_iff.1 hfilter with ⟨hnone, -⟩ | hvalue
    · have hsome := Schema.isSome_field?_iff.2 hid
      rw [hnone] at hsome
      cases hsome
    · exact Or.inr hvalue

end Criteria
