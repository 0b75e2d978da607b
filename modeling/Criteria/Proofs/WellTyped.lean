import Criteria.Proofs.Compile

set_option autoImplicit false

/-! # Compiled filters are well typed

Four tables have to agree for a comparison to mean anything: the fields of the entity, the kinds
that literals are coerced to, the operators that a kind admits, and the kinds whose values compare.
Coercion gives null or a value of exactly the kind of the field (`kind?_of_coerce`), and values of
one kind compare unless one is not a number (`compare_eq_none_iff`). So a comparison of a compiled
filter never fails to compare because of a mismatch of kinds (`compile_wellTyped`). -/

namespace Criteria

open Number

/-! ## Kinds of values -/

/-- The kind of a value; null has none. -/
def Value.kind? : Value → Option Kind
  | .null => none
  | .bool _ => some .bool
  | .int _ => some .int
  | .float _ => some .float
  | .decimal _ => some .decimal
  | .text _ => some .text
  | .timestamp _ => some .timestamp
  | .date _ => some .date
  | .uuid _ => some .uuid

theorem Literal.kind?_of_toKind? {l : Literal} {k : Kind} {v : Value} (h : l.toKind? k = some v) :
    v.kind? = some k := by
  unfold toKind? at h
  cases k <;>
  · obtain ⟨x, -, rfl⟩ := Option.map_eq_some_iff.1 h
    rfl

/-- A literal is coerced to null, if it is null and the field may hold null, or to a value of
exactly the kind of the field. -/
theorem Literal.kind?_of_coerce {l : Literal} {field : Field} {v : Value}
    (h : l.coerce field = .ok v) :
    l = .null ∧ field.nullable = true ∧ v = .null ∨ l ≠ .null ∧ v.kind? = some field.kind := by
  unfold coerce at h
  split at h
  · next hnull =>
      split at h
      · next hnullable =>
          cases h
          exact Or.inl ⟨hnull, hnullable, rfl⟩
      · exact absurd h (by simp)
  · next hnull =>
      split at h
      · next w hw =>
          cases h
          exact Or.inr ⟨hnull, kind?_of_toKind? hw⟩
      · exact absurd h (by simp)

theorem Number.Binary64.units?_eq_none_iff {x : Binary64} : x.units? = none ↔ x = .nan := by
  cases x with
  | finite negative m s h => exact ⟨nofun, nofun⟩
  | infinite negative => exact ⟨nofun, nofun⟩
  | nan => exact ⟨fun _ => rfl, fun _ => rfl⟩

theorem Number.Binary64.compare_eq_none_iff {a b : Binary64} :
    a.compare b = none ↔ a = .nan ∨ b = .nan := by
  unfold Binary64.compare
  cases ha : a.units? with
  | none => simp [Binary64.units?_eq_none_iff.1 ha]
  | some m =>
      have ha' : a ≠ .nan := by
        intro h
        simp [Binary64.units?_eq_none_iff.2 h] at ha
      cases hb : b.units? with
      | none => simp [Binary64.units?_eq_none_iff.1 hb]
      | some n =>
          have hb' : b ≠ .nan := by
            intro h
            simp [Binary64.units?_eq_none_iff.2 h] at hb
          simp [ha', hb']

/-- Two values of one kind compare, unless one of them is not a number. -/
theorem Value.compare_eq_none_iff {a b : Value} {k : Kind} (ha : a.kind? = some k)
    (hb : b.kind? = some k) : a.compare b = none ↔ a = .float .nan ∨ b = .float .nan := by
  cases a <;> cases ha <;> cases b <;> cases hb <;>
    simp [Value.compare, Binary64.compare_eq_none_iff]

/-! ## Comparisons that fit their field -/

/-- A comparison fits the criterion that it comes from and the field that it is on. -/
structure Leaf.WellTyped (l : Leaf) (c : Criterion) (field : Field) : Prop where
  /-- It is on the property that the criterion names. -/
  property : l.field = c.property
  /-- The constant is null only where null was sent and is allowed. -/
  null : l.value = .null → field.nullable = true ∧ c.value = .null
  /-- Any other constant is a value of the kind of the field. -/
  kind : l.value ≠ .null → l.value.kind? = some field.kind
  /-- The kinds without an order are only compared for equality. -/
  ordering : l.op.isOrdering = true → field.kind ≠ .bool ∧ field.kind ≠ .uuid

theorem Leaf.wellTyped_of_filter {l : Leaf} {c : Criterion} {s : Schema}
    (h : c.filter s = .ok l.filter) :
    ∃ field, s.field? l.field = some field ∧ l.WellTyped c field := by
  obtain ⟨op, name, constant⟩ := l
  obtain ⟨field, value, op', hfield, hvalue, -, hord, hl⟩ := Criterion.filter_eq_ok_iff.1 h
  obtain ⟨rfl, rfl, rfl⟩ := Filter.compare.inj hl
  refine ⟨field, hfield, rfl, ?_, ?_, ?_⟩
  · intro hnull
    rcases Literal.kind?_of_coerce hvalue with ⟨hc, hnullable, -⟩ | ⟨-, hkind⟩
    · exact ⟨hnullable, hc⟩
    · rw [hnull] at hkind
      exact absurd hkind (by simp [Value.kind?])
  · intro hne
    rcases Literal.kind?_of_coerce hvalue with ⟨-, -, hnull⟩ | ⟨-, hkind⟩
    · exact absurd hnull hne
    · exact hkind
  · intro hop
    have horderable := hord hop
    constructor
    · intro hbool
      simp [hbool, Kind.isOrderable] at horderable
    · intro huuid
      simp [huuid, Kind.isOrderable] at horderable

/-- Every field of the table holds null or a value of its kind in this row. -/
def Entity.RowTyped {ρ : Type} (e : Entity ρ) (row : ρ) : Prop :=
  ∀ name field, e.field? name = some field →
    e.value row name = .null ∨ (e.value row name).kind? = some field.kind

/-- **Compiled filters are well typed.** The comparisons of a compiled filter stand for the criteria
one by one, and each fits the first field of its name. In a row of values of the right kinds, a
comparison of the row with a constant fails only for null or for what is not a number. -/
theorem compile_wellTyped {ρ : Type} {env : Environment} {e : Entity ρ} {cs : List Criterion}
    {f : Filter} (hf : (compile env e.toSchema cs).outcome = .ok f) :
    f.leaves.length = cs.length ∧
    (∀ (i : Nat) (l : Leaf), f.leaves[i]? = some l → ∃ c field, cs[i]? = some c ∧
      e.field? l.field = some field ∧ l.WellTyped c field) ∧
    ∀ row, e.RowTyped row → ∀ l ∈ f.leaves, (e.value row l.field).compare l.value = none →
      e.value row l.field = .null ∨ l.value = .null ∨
        e.value row l.field = .float .nan ∨ l.value = .float .nan := by
  have hleaves := leaves_compile hf
  have hat : ∀ (i : Nat) (l : Leaf), f.leaves[i]? = some l → ∃ c field, cs[i]? = some c ∧
      e.field? l.field = some field ∧ l.WellTyped c field := by
    intro i l hl
    have hi := congrArg (·[i]?) hleaves
    simp only [List.getElem?_map, hl, Option.map_some] at hi
    obtain ⟨c, hc, hfilter⟩ := Option.map_eq_some_iff.1 hi
    obtain ⟨field, hfield, htyped⟩ := Leaf.wellTyped_of_filter hfilter
    exact ⟨c, field, hc, hfield, htyped⟩
  refine ⟨by simpa using congrArg List.length hleaves.symm, hat, ?_⟩
  intro row hrow l hl hnone
  obtain ⟨i, hi⟩ := List.mem_iff_getElem?.1 hl
  obtain ⟨c, field, -, hfield, htyped⟩ := hat i l hi
  by_cases hconstant : l.value = .null
  · exact Or.inr (Or.inl hconstant)
  · rcases hrow l.field field hfield with hvalue | hvalue
    · exact Or.inl hvalue
    · exact Or.inr (Or.inr ((Value.compare_eq_none_iff hvalue (htyped.kind hconstant)).1 hnone))

/-- Badges with a number, a holder that may be missing and a mark, as rows of an entity. -/
def badges : Entity (Int64 × Option String × Bool) where
  name := "Badge"
  fields := [⟨"Id", .int, false⟩, ⟨"Holder", .text, true⟩, ⟨"Valid", .bool, false⟩]
  read row field :=
    if field = "Id" then some (.int row.1)
    else if field = "Holder" then some ((row.2.1.map Value.text).getD .null)
    else if field = "Valid" then some (.bool row.2.2)
    else none

/-- One criterion of each form of literal that badges take. -/
def badgesCriteria : List Criterion :=
  [⟨"Holder", "=", .null⟩, ⟨"Holder", "equals", .int 7⟩, ⟨"Id", "<=", .text " 12 "⟩,
    ⟨"Valid", "!=", .int 0⟩]

theorem compile_wellTyped_badges :
    ∃ f, (compile {} badges.toSchema badgesCriteria).outcome = .ok f ∧ f.leaves.length = 4 ∧
      ∀ row, badges.RowTyped row → ∀ l ∈ f.leaves,
        (badges.value row l.field).compare l.value = none →
          badges.value row l.field = .null ∨ l.value = .null ∨
            badges.value row l.field = .float .nan ∨ l.value = .float .nan := by
  have hf : (compile {} badges.toSchema badgesCriteria).outcome =
      .ok (.all [.any [.compare .equal "Holder" .null, .compare .equal "Holder" (.text "7")],
        .compare .lessOrEqual "Id" (.int 12), .compare .notEqual "Valid" (.bool false)]) := rfl
  obtain ⟨hlength, -, hcompare⟩ := compile_wellTyped hf
  exact ⟨_, hf, hlength, hcompare⟩

end Criteria
