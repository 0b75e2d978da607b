import Criteria.Proofs.Verdict
import Mathlib.Data.List.Chain

set_option autoImplicit false

/-! # Criteria in one batch or in two

A run of `compileFrom` over two lists is one over the first and then one over the second, which
goes on with the filter, the position and the property where the first ended
(`outcome_compileFrom_append`). So a batch fails where one of its parts would, and only the position
tells them apart.

What the second list does to the filter is another matter: an alternative takes in all that came
before it, the criteria of the first list too. Where no criterion of the second list continues a
property, each of them is a further condition (`holds_compileFrom_of_separate`), and then a batch
selects what its parts select one after the other (`View.apply_append`). -/

namespace Criteria

/-! ## Two lists in one run -/

/-- The property of the last criterion, or the one before the list if it is empty. -/
def lastProperty (previous : Option String) (cs : List Criterion) : Option String :=
  (cs.getLast?.map Criterion.property).or previous

theorem lastProperty_cons (previous : Option String) (c : Criterion) (cs : List Criterion) :
    lastProperty previous (c :: cs) = lastProperty (some c.property) cs := by
  rw [lastProperty, lastProperty, List.getLast?_cons]
  cases cs.getLast? <;> rfl

section

variable {env : Environment} {s : Schema} {cs ds : List Criterion}

theorem outcome_compileFrom_append (index : Nat) (previous : Option String) (combined : Filter)
    (cs ds : List Criterion) :
    (compileFrom env s index previous combined (cs ++ ds)).outcome =
      (compileFrom env s index previous combined cs).outcome.bind fun f =>
        (compileFrom env s (index + cs.length) (lastProperty previous cs) f ds).outcome := by
  induction cs generalizing index previous combined with
  | nil => rfl
  | cons c cs ih =>
      rw [List.cons_append, outcome_compileFrom_cons, outcome_compileFrom_cons]
      cases c.filter s with
      | error r => rfl
      | ok one =>
          dsimp only
          rw [ih, lastProperty_cons, List.length_cons, Nat.add_right_comm, Nat.add_assoc]

theorem outcome_compile_append (cs ds : List Criterion) :
    (compile env s (cs ++ ds)).outcome =
      (compile env s cs).outcome.bind fun f =>
        (compileFrom env s cs.length (lastProperty none cs) f ds).outcome := by
  rw [compile, outcome_compileFrom_append, Nat.zero_add]
  rfl

/-- Two lists can be compiled together exactly if each of them can be compiled. -/
theorem compile_append_ok_iff :
    (∃ f, (compile env s (cs ++ ds)).outcome = .ok f) ↔
      (∃ f, (compile env s cs).outcome = .ok f) ∧ ∃ f, (compile env s ds).outcome = .ok f := by
  simp only [compile, compileFrom_ok_iff, List.forall_mem_append]

/-- The report on two lists is the one on the first, or the one on the second at a position that
counts the first. -/
theorem compile_append_error_iff {r : Report} :
    (compile env s (cs ++ ds)).outcome = .error r ↔
      (compile env s cs).outcome = .error r ∨
      ∃ f r' i, (compile env s cs).outcome = .ok f ∧ (compile env s ds).outcome = .error r' ∧
        r'.context.index = some i ∧ r = r'.atIndex (cs.length + i) := by
  rw [outcome_compile_append]
  cases hcs : (compile env s cs).outcome with
  | error r' => simp [Except.bind]
  | ok f =>
      show (compileFrom env s cs.length (lastProperty none cs) f ds).outcome = .error r ↔ _
      simp only [compileFrom_error_iff, compile_error_iff, reduceCtorEq, false_or]
      constructor
      · rintro ⟨i, r', hfault, rfl⟩
        exact ⟨f, r'.atIndex i, i, rfl, ⟨i, r', hfault, rfl⟩, rfl, rfl⟩
      · rintro ⟨-, -, i, -, ⟨j, r', hfault, rfl⟩, hindex, rfl⟩
        cases hindex
        exact ⟨i, r', hfault, rfl⟩

end

/-! ## Criteria that continue no property -/

variable {ρ : Type} {env : Environment} {e : Entity ρ} {cs ds : List Criterion}

/-- No criterion is on the property of the one before it. -/
def Separate (cs : List Criterion) : Prop := cs.IsChain fun c d => c.property ≠ d.property

/-- The second list does not start with the property that the first ends with. -/
def SeamSeparate (cs ds : List Criterion) : Prop :=
  ∀ c ∈ cs.getLast?, ∀ d ∈ ds.head?, c.property ≠ d.property

/-- A criterion on another property than the one before it is a further condition. -/
theorem Filter.holds_joinNext_of_ne {previous : Option String} {combined : Filter}
    (hstart : previous = none → combined = .always) {property : String}
    (hne : ∀ p ∈ previous, p ≠ property) (one : Filter) (values : String → Value) :
    (combined.joinNext previous property one).holds values =
      (combined.holds values && one.holds values) := by
  cases previous with
  | none =>
      rw [hstart rfl]
      exact (Bool.true_and _).symm
  | some p =>
      have hp : p ≠ property := hne p rfl
      rw [joinNext, if_neg hp, holds_andThen]

/-- A run over criteria that continue no property adds a condition for each of them. -/
theorem holds_compileFrom_of_separate (row : ρ) {index : Nat} {previous : Option String}
    {combined f : Filter} (hstart : previous = none → combined = .always)
    (hseam : ∀ p ∈ previous, ∀ d ∈ ds.head?, p ≠ d.property) (hds : Separate ds)
    (hf : (compileFrom env e.toSchema index previous combined ds).outcome = .ok f) :
    f.holds (e.value row) = true ↔
      combined.holds (e.value row) = true ∧ ∀ d ∈ ds, d.Accepts e row := by
  induction ds generalizing index previous combined with
  | nil =>
      cases hf
      simp
  | cons d ds ih =>
      rw [outcome_compileFrom_cons] at hf
      cases hd : d.filter e.toSchema with
      | error r =>
          rw [hd] at hf
          exact absurd hf (by simp)
      | ok one =>
          rw [hd] at hf
          obtain ⟨hnext, hrest⟩ := List.isChain_cons.1 hds
          have hne : ∀ p ∈ previous, p ≠ d.property := fun p hp => hseam p hp d rfl
          -- the rest of the run starts behind `d`, from the filter that `d` was joined to
          have hmore := ih (by simp) (by simpa using hnext) hrest hf
          rw [hmore, Filter.holds_joinNext_of_ne hstart hne, Bool.and_eq_true,
            d.holds_filter_iff hd, List.forall_mem_cons, and_assoc]

/-- Where the second list continues no property, the filter of two lists holds for the rows that the
filters of both hold for. -/
theorem holds_compile_append (hseam : SeamSeparate cs ds) (hds : Separate ds) {f : Filter}
    (hf : (compile env e.toSchema (cs ++ ds)).outcome = .ok f) :
    ∃ g h, (compile env e.toSchema cs).outcome = .ok g ∧
      (compile env e.toSchema ds).outcome = .ok h ∧
      ∀ row, f.holds (e.value row) = (g.holds (e.value row) && h.holds (e.value row)) := by
  obtain ⟨⟨g, hg⟩, h, hh⟩ := compile_append_ok_iff.1 ⟨f, hf⟩
  refine ⟨g, h, hg, hh, ?_⟩
  intro row
  rw [outcome_compile_append, hg] at hf
  have hstart : lastProperty none cs = none → g = .always := by
    cases hlast : cs.getLast? with
    | none =>
        rw [List.getLast?_eq_none_iff.1 hlast] at hg
        cases hg
        exact fun _ => rfl
    | some c => simp [lastProperty, hlast]
  have hproperty : ∀ p ∈ lastProperty none cs, ∀ d ∈ ds.head?, p ≠ d.property := by
    simpa [lastProperty, SeamSeparate] using hseam
  have hboth := holds_compileFrom_of_separate row hstart hproperty hds hf
  have hsecond := holds_compileFrom_of_separate row (fun _ => rfl) (by simp) hds hh
  rw [Bool.eq_iff_iff, Bool.and_eq_true, hboth, hsecond]
  simp [Filter.holds]

/-! ## Views -/

namespace View

/-- Where the second list continues no property, narrowing by both lists at once selects what
narrowing by one after the other does. -/
theorem sameSelection_apply_append (v : View ρ) (hseam : SeamSeparate cs ds) (hds : Separate ds)
    {w : View ρ} (hw : (v.apply env e (cs ++ ds)).outcome = .ok w) :
    ∃ u w', (v.apply env e cs).outcome = .ok u ∧ (u.apply env e ds).outcome = .ok w' ∧
      w.sameSelection w' = true := by
  have hself : ∀ u : View ρ, u.sameSelection u = true := fun u => by simp [sameSelection]
  -- an empty list leaves its view as it is, without listing the positions
  by_cases hcsne : cs = []
  · subst hcsne
    exact ⟨v, w, rfl, hw, hself w⟩
  by_cases hdsne : ds = []
  · subst hdsne
    rw [List.append_nil] at hw
    exact ⟨w, w, hw, rfl, hself w⟩
  rw [outcome_apply env e v (by simp [hcsne])] at hw
  cases hf : (compile env e.toSchema (cs ++ ds)).outcome with
  | error r =>
      rw [hf] at hw
      cases hw
  | ok f =>
      rw [hf] at hw
      cases hw
      obtain ⟨g, h, hg, hh, hholds⟩ := holds_compile_append hseam hds hf
      refine ⟨v.narrow e g, (v.narrow e g).narrow e h, ?_, ?_, ?_⟩
      · rw [outcome_apply env e v hcsne, hg]
        rfl
      · rw [outcome_apply env e _ hdsne, hh]
        rfl
      · have hmeets : ∀ i, v.meets e f i = (v.meets e g i && v.meets e h i) := by
          intro i
          unfold meets
          cases v.source.rows[i]? with
          | none => rfl
          | some row => exact hholds row
        have hpositions : (v.narrow e f).positions = ((v.narrow e g).narrow e h).positions := by
          have hsource : (v.narrow e g).meets e h = v.meets e h := rfl
          rw [positions_narrow, positions_narrow, positions_narrow, hsource, List.filter_filter]
          refine List.filter_congr ?_
          intro i _
          rw [hmeets, Bool.and_comm]
        simp [sameSelection, hpositions]

/-- **A batch is its parts in sequence, where no criterion of the second continues a property.** Two
lists can be applied together if and only if each of them can be applied. The view that they come to
at once selects what applying the second to the view of the first does. If they cannot be applied,
the report is the one of the sequence; where the fault lies in the second list, its position counts
the criteria of the first. -/
theorem apply_append (env : Environment) (e : Entity ρ) (v : View ρ) (hseam : SeamSeparate cs ds)
    (hds : Separate ds) :
    ((∃ w, (v.apply env e (cs ++ ds)).outcome = .ok w) ↔
      (∃ u, (v.apply env e cs).outcome = .ok u) ∧ ∃ u, (v.apply env e ds).outcome = .ok u) ∧
    (∀ w, (v.apply env e (cs ++ ds)).outcome = .ok w →
      ∃ u w', (v.apply env e cs).outcome = .ok u ∧ (u.apply env e ds).outcome = .ok w' ∧
        w.sameSelection w' = true) ∧
    ∀ r, (v.apply env e (cs ++ ds)).outcome = .error r ↔
      (v.apply env e cs).outcome = .error r ∨
      ∃ u r' i, (v.apply env e cs).outcome = .ok u ∧ (u.apply env e ds).outcome = .error r' ∧
        r'.context.index = some i ∧ r = r'.atIndex (cs.length + i) := by
  refine ⟨?_, fun w hw => sameSelection_apply_append v hseam hds hw, ?_⟩
  · simp only [apply_ok_iff, compile_append_ok_iff]
  · intro r
    simp only [apply_error_iff, compile_append_error_iff]
    refine or_congr_right ?_
    constructor
    · rintro ⟨f, r', i, hf, hr', hindex, rfl⟩
      obtain ⟨u, hu⟩ := (apply_ok_iff env e v).2 ⟨f, hf⟩
      exact ⟨u, r', i, hu, hr', hindex, rfl⟩
    · rintro ⟨u, r', i, hu, hr', hindex, rfl⟩
      obtain ⟨f, hf⟩ := (apply_ok_iff env e v).1 ⟨u, hu⟩
      exact ⟨f, r', i, hf, hr', hindex, rfl⟩

end View

/-- Two alternatives, as the first list of a batch. -/
def eitherP : List Criterion := [⟨"P", "=", .int 1⟩, ⟨"P", "=", .int 2⟩]

/-- Two conditions, as the second list. -/
def onQThenP : List Criterion := [⟨"Q", ">", .int 3⟩, ⟨"P", "<", .int 5⟩]

theorem View.apply_append_pairs :
    (∃ w u w', (threePairs.apply {} pairs (eitherP ++ onQThenP)).outcome = .ok w ∧
      w.positions = [2] ∧ (threePairs.apply {} pairs eitherP).outcome = .ok u ∧
      (u.apply {} pairs onQThenP).outcome = .ok w' ∧ w.sameSelection w' = true) ∧
    ∃ r r', (threePairs.apply {} pairs (eitherP ++ [⟨"Q", "=", .null⟩])).outcome = .error r ∧
      (threePairs.apply {} pairs [⟨"Q", "=", .null⟩]).outcome = .error r' ∧
      r'.context.index = some 0 ∧ r = r'.atIndex 2 := by
  have hseam : SeamSeparate eitherP onQThenP := by simp [SeamSeparate, eitherP, onQThenP]
  have hds : Separate onQThenP := by simp [Separate, onQThenP]
  obtain ⟨hok, hsame, -⟩ := threePairs.apply_append {} pairs hseam hds
  obtain ⟨w, hw⟩ := hok.2 ⟨⟨_, rfl⟩, _, rfl⟩
  obtain ⟨u, w', hu, hw', hselected⟩ := hsame w hw
  have hpositions : (threePairs.apply {} pairs (eitherP ++ onQThenP)).outcome =
      .ok ⟨threePairs.source, some [2]⟩ := rfl
  rw [hpositions] at hw
  cases hw
  refine ⟨⟨_, u, w', hpositions, rfl, hu, hw', hselected⟩, ?_⟩
  have hseam' : SeamSeparate eitherP [⟨"Q", "=", .null⟩] := by simp [SeamSeparate, eitherP]
  obtain ⟨-, -, herror⟩ := threePairs.apply_append {} pairs hseam' (by simp [Separate])
  exact ⟨_, _, (herror _).2 (Or.inr ⟨_, _, 0, rfl, rfl, rfl, rfl⟩), rfl, rfl, rfl⟩

/-- An alternative in the second list takes in the rows that the first has left out. -/
example : (threePairs.apply {} pairs (pairsCriteria.take 2)).outcome.toOption.map View.positions =
      some [2] ∧
    (threePairs.apply {} pairs pairsCriteria).outcome.toOption.map View.positions =
      some [0, 2] := by
  decide +kernel

end Criteria
