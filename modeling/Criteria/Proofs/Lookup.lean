import Criteria.Proofs.Endpoint
import Criteria.Proofs.Reachable

set_option autoImplicit false

/-! # Fetching by identifier

Fetching a row by its identifier does not go through a list of criteria: it compiles the one
criterion on the identifying field by itself, narrows the view and takes the first row. It agrees
with listing by that criterion all the same (`Endpoint.findById_agrees_with_listing`): it fails if
and only if listing does, with the same report but for the position of the criterion, and otherwise
gives the first row of the list. Because the positions of a view ascend, that row is the first one
of the source that is selected and has the identifier (`View.first?_narrow_eq_some_iff`). -/

namespace Criteria

variable {ρ : Type} {e : Entity ρ} {v : View ρ}

/-! ## The first row of a narrowed view -/

/-- The first element that meets a condition, in an ascending list, is the least one. -/
theorem find?_eq_some_iff_of_ascending {l : List Nat} (hl : l.Pairwise (· < ·)) {p : Nat → Bool}
    {i : Nat} :
    l.find? p = some i ↔ i ∈ l ∧ p i = true ∧ ∀ j ∈ l, j < i → p j = false := by
  rw [List.find?_eq_some_iff_append]
  constructor
  · rintro ⟨hp, before, after, rfl, hbefore⟩
    obtain ⟨-, hafter, -⟩ := List.pairwise_append.1 hl
    refine ⟨by simp, hp, ?_⟩
    intro j hj hlt
    rcases List.mem_append.1 hj with hj | hj
    · simpa using hbefore j hj
    · rcases List.mem_cons.1 hj with rfl | hj
      · exact absurd hlt (Nat.lt_irrefl j)
      · exact absurd ((List.pairwise_cons.1 hafter).1 j hj) (Nat.lt_asymm hlt)
  · rintro ⟨hi, hp, hearlier⟩
    obtain ⟨before, after, rfl⟩ := List.append_of_mem hi
    obtain ⟨-, -, hbefore⟩ := List.pairwise_append.1 hl
    refine ⟨hp, before, after, rfl, ?_⟩
    intro j hj
    rw [hearlier j (List.mem_append_left _ hj) (hbefore j hj i List.mem_cons_self)]
    rfl

namespace View

/-- The row at a position is the first one of the source that is selected and has a property. -/
structure FirstAt (v : View ρ) (p : ρ → Prop) (i : Nat) (row : ρ) : Prop where
  selected : i ∈ v.positions
  found : v.source.rows[i]? = some row
  holds : p row
  earliest : ∀ j ∈ v.positions, j < i → ∀ other, v.source.rows[j]? = some other → ¬p other

/-- The first row of a narrowed view is at the first position that meets the filter. -/
theorem first?_narrow (v : View ρ) (e : Entity ρ) (f : Filter) :
    (v.narrow e f).first? =
      (v.positions.find? (v.meets e f)).bind fun i => v.source.rows[i]? := by
  rw [first?, items_eq, List.head?_filterMap, positions_narrow, source_narrow]
  induction v.positions with
  | nil => rfl
  | cons i positions ih =>
      rw [List.find?_cons, List.filter_cons]
      cases hmeets : v.meets e f i with
      | false => exact ih
      | true =>
          obtain ⟨row, hrow, -⟩ := meets_eq_true_iff.1 hmeets
          simp [hrow]

theorem first?_narrow_eq_some_iff (hv : v.Ordered) {f : Filter} {row : ρ} :
    (v.narrow e f).first? = some row ↔
      ∃ i, v.FirstAt (fun row => f.holds (e.value row) = true) i row := by
  rw [first?_narrow, Option.bind_eq_some_iff]
  simp only [find?_eq_some_iff_of_ascending hv.ascending]
  refine exists_congr fun i => ?_
  constructor
  · rintro ⟨⟨hi, hmeets, hearlier⟩, hrow⟩
    rw [meets_of_row hrow] at hmeets
    refine ⟨hi, hrow, hmeets, ?_⟩
    intro j hj hlt other hother
    rw [← meets_of_row hother, hearlier j hj hlt]
    exact Bool.false_ne_true
  · rintro ⟨hi, hrow, hholds, hearlier⟩
    refine ⟨⟨hi, (meets_of_row hrow).trans hholds, ?_⟩, hrow⟩
    intro j hj hlt
    rw [← Bool.not_eq_true, meets_eq_true_iff]
    rintro ⟨other, hother, hp⟩
    exact hearlier j hj hlt other hother hp

theorem first?_narrow_eq_none_iff {f : Filter} :
    (v.narrow e f).first? = none ↔ ∀ i ∈ v.positions, ∀ row, v.source.rows[i]? = some row →
      ¬f.holds (e.value row) = true := by
  constructor
  · intro hnone i hi row hrow hholds
    have hmeets := meets_eq_true_iff.2 ⟨row, hrow, hholds⟩
    have hmem : row ∈ (v.narrow e f).items := by
      rw [items_eq]
      exact List.mem_filterMap.2 ⟨i, List.mem_filter.2 ⟨hi, hmeets⟩, hrow⟩
    rw [first?, List.head?_eq_none_iff] at hnone
    rw [hnone] at hmem
    exact absurd hmem List.not_mem_nil
  · intro hnot
    have hfind : v.positions.find? (v.meets e f) = none := by
      rw [List.find?_eq_none]
      intro i hi hmeets
      obtain ⟨row, hrow, hholds⟩ := meets_eq_true_iff.1 hmeets
      exact hnot i hi row hrow hholds
    rw [first?_narrow, hfind, Option.bind_none]

end View

/-! ## A single criterion -/

/-- Applying a single criterion is compiling it by itself, up to its position in the report. -/
theorem View.outcome_apply_singleton (env : Environment) (e : Entity ρ) (v : View ρ)
    (c : Criterion) :
    (v.apply env e [c]).outcome =
      ((c.filter e.toSchema).mapError (·.atIndex 0)).map (v.narrow e) := by
  rw [outcome_apply env e v (List.cons_ne_nil c []), compile, outcome_compileFrom_cons]
  cases c.filter e.toSchema <;> rfl

/-- Reports that do not say a position are the same if they are the same with a position. -/
theorem Report.eq_of_atIndex_eq {r r' : Report} {i : Nat} (hr : r.context.index = none)
    (hr' : r'.context.index = none) (h : r.atIndex i = r'.atIndex i) : r = r' := by
  have hclear : ∀ {s : Report}, s.context.index = none →
      { s.atIndex i with context := { (s.atIndex i).context with index := none } } = s := by
    rintro ⟨code, message, ⟨entity, property, operator, index, suggestions, help⟩, source⟩ hindex
    cases hindex
    rfl
  rw [← hclear hr, h, hclear hr']

section

variable {property : String} {id : Literal} {s : Schema}

theorem Criterion.filter_equals_eq_ok_iff {f : Filter} :
    (Criterion.mk property "=" id).filter s = .ok f ↔ ∃ field constant,
      s.field? property = some field ∧ id.coerce field = .ok constant ∧
        f = .compare .equal property constant := by
  rw [filter_eq_ok_iff]
  constructor
  · rintro ⟨field, constant, op, hfield, hconstant, hop, -, rfl⟩
    cases (Operator.ofToken?_symbol .equal).symm.trans hop
    exact ⟨field, constant, hfield, hconstant, rfl⟩
  · rintro ⟨field, constant, hfield, hconstant, rfl⟩
    exact ⟨field, constant, .equal, hfield, hconstant, Operator.ofToken?_symbol .equal, nofun, rfl⟩

/-- Equality is an operator of every field, so only the property and the literal can be at fault. -/
theorem Criterion.filter_equals_eq_error_iff {r : Report} :
    (Criterion.mk property "=" id).filter s = .error r ↔
      s.field? property = none ∧ r = .unknownProperty s.name property s.fieldNames ∨
      ∃ field error, s.field? property = some field ∧ id.coerce field = .error error ∧
        r = ((Report.invalidValue s.name field.name error.message).withOperator "=").withSource
          (.coercion error) := by
  rw [filter_eq_error_iff]
  constructor
  · intro h
    cases h with
    | property hfield => exact Or.inl ⟨hfield, rfl⟩
    | value hfield hvalue => exact Or.inr ⟨_, _, hfield, hvalue, rfl⟩
    | operator hfield hvalue hop =>
        cases (Operator.ofToken?_symbol .equal).symm.trans hop
    | order hfield hvalue hop hordering hkind =>
        cases (Operator.ofToken?_symbol .equal).symm.trans hop
        cases hordering
  · rintro (⟨hfield, rfl⟩ | ⟨field, error, hfield, hvalue, rfl⟩)
    · exact .property hfield
    · exact .value hfield hvalue

end

/-! ## Fetching and listing -/

namespace Endpoint

variable {env : Environment} {point : Endpoint} {who : Principal} {id : Literal}

/-- **Fetching by identifier agrees with listing by the identifying field.** For a principal that is
allowed to read, fetching fails if and only if applying the criterion `id = literal` fails, and then
with the same report, which says no position where the other says position 0. Otherwise it gives the
first row of the list: the first row of the source that is selected and whose identifier is equal to
the literal, as a value of the identifying field, and none if and only if there is no such row. -/
theorem findById_agrees_with_listing (hgate : point.gate who e.name .read = true)
    (hv : v.Reachable e) :
    (∀ r, (point.findById env e who v id).outcome = .error r ↔ r.context.index = none ∧
      (v.apply env e [⟨e.idField, "=", id⟩]).outcome =
        .error { r with context := { r.context with index := some 0 } }) ∧
    (∀ answer, (point.findById env e who v id).outcome = .ok answer ↔
      ∃ w, (v.apply env e [⟨e.idField, "=", id⟩]).outcome = .ok w ∧ w.first? = answer) ∧
    ∀ answer, (point.findById env e who v id).outcome = .ok answer → ∃ field constant,
      e.field? e.idField = some field ∧ id.coerce field = .ok constant ∧
      (∀ row, answer = some row ↔ ∃ i, v.FirstAt
        (fun row => Operator.equal.Compares (e.value row e.idField) constant) i row) ∧
      (answer = none ↔ ∀ i ∈ v.positions, ∀ row, v.source.rows[i]? = some row →
        ¬Operator.equal.Compares (e.value row e.idField) constant) := by
  rw [outcome_findById_of_allowed hgate, View.outcome_apply_singleton]
  cases hfilter : (Criterion.mk e.idField "=" id).filter e.toSchema with
  | error r' =>
      have hindex := (Criterion.filter_eq_error_iff.1 hfilter).index_eq_none
      refine ⟨fun r => ⟨?_, ?_⟩, fun answer => ⟨nofun, ?_⟩, nofun⟩
      · intro h
        cases h
        exact ⟨hindex, rfl⟩
      · rintro ⟨hr, h⟩
        rw [Report.eq_of_atIndex_eq hindex hr (Except.error.inj h)]
        rfl
      · rintro ⟨w, hw, -⟩
        cases hw
  | ok f =>
      obtain ⟨field, constant, hfield, hconstant, rfl⟩ :=
        Criterion.filter_equals_eq_ok_iff.1 hfilter
      refine ⟨fun r => ⟨nofun, ?_⟩, fun answer => ⟨?_, ?_⟩, ?_⟩
      · rintro ⟨-, h⟩
        cases h
      · intro h
        cases h
        exact ⟨_, rfl, rfl⟩
      · rintro ⟨w, hw, rfl⟩
        cases hw
        rfl
      · intro answer hanswer
        cases hanswer
        refine ⟨field, constant, hfield, hconstant, ?_, ?_⟩
        · intro row
          rw [View.first?_narrow_eq_some_iff hv.ordered]
          simp only [Filter.holds, Operator.holds_iff_compares]
        · rw [View.first?_narrow_eq_none_iff]
          simp only [Filter.holds, Operator.holds_iff_compares]

/-- Desks, not all of which have a number, as rows of an entity. -/
def desks : Entity (Option Int64 × String) where
  name := "Desk"
  fields := [⟨"Id", .int, true⟩, ⟨"Room", .text, false⟩]
  read row field :=
    if field = "Id" then some ((row.1.map Value.int).getD .null)
    else if field = "Room" then some (.text row.2)
    else none

/-- Five desks, three of which have the same number. -/
def fiveDesks : Source (Option Int64 × String) :=
  ⟨0, [(some 7, "A"), (none, "B"), (some 7, "C"), (some 4, "D"), (some 7, "E")]⟩

theorem findById_agrees_with_listing_desks :
    ∃ (point : Endpoint) (who : Principal) (view : View (Option Int64 × String)),
      point.gate who desks.name .read = true ∧ view.Reachable desks ∧
      view.positions = [1, 2, 3, 4] ∧
      (point.findById {} desks who view (.text " 7 ")).outcome = .ok (some (some 7, "C")) ∧
      (∃ w, (view.apply {} desks [⟨"Id", "=", .text " 7 "⟩]).outcome = .ok w ∧
        w.first? = some (some 7, "C")) ∧
      (∃ field constant i, desks.field? "Id" = some field ∧
        (Literal.text " 7 ").coerce field = .ok constant ∧ view.FirstAt
          (fun row => Operator.equal.Compares (desks.value row "Id") constant) i (some 7, "C")) ∧
      ∃ r : Report, r.context.index = none ∧
        (view.apply {} desks [⟨"Id", "=", .text "seven"⟩]).outcome =
          .error { r with context := { r.context with index := some 0 } } := by
  let point : Endpoint := ⟨Gate.allowAll, {}, false⟩
  let who : Principal := ⟨"acme", "alice", []⟩
  let view : View (Option Int64 × String) := ⟨fiveDesks, some [1, 2, 3, 4]⟩
  have hgate : point.gate who desks.name .read = true := rfl
  have hreachable : view.Reachable desks :=
    .step (.filter (.compare .notEqual "Room" (.text "A"))) (.all fiveDesks) rfl
  have hfound : (point.findById {} desks who view (.text " 7 ")).outcome =
      .ok (some (some 7, "C")) := rfl
  have hrefused : (point.findById {} desks who view (.text "seven")).outcome =
      .error (((Report.invalidValue "Desk" "Id" "\"seven\" is not a valid Int").withOperator
        "=").withSource (.coercion (.mismatch .int (.text "seven")))) := rfl
  obtain ⟨herror, -⟩ := findById_agrees_with_listing hgate hreachable
  obtain ⟨-, hlisted, hfirst⟩ := findById_agrees_with_listing hgate hreachable
  obtain ⟨field, constant, hfield, hconstant, hrow, -⟩ := hfirst _ hfound
  obtain ⟨i, hi⟩ := (hrow _).1 rfl
  exact ⟨point, who, view, hgate, hreachable, rfl, hfound, (hlisted _).1 hfound,
    ⟨field, constant, i, hfield, hconstant, hi⟩, _, (herror _).1 hrefused⟩

end Endpoint

end Criteria
