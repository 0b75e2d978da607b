import Criteria.Proofs.Reachable

set_option autoImplicit false

/-! # Views that select the same

Two views select the same if their sources are one object and their positions are equal; whether the
positions are listed or left out for the whole source makes no difference. The tags of a program
name its objects, so sources of one tag have the same rows (`Source.In`). On reachable views no
observer tells views apart that select the same (`View.same_of_sameSelection`), one step of any kind
fails alike or comes to views that select the same again (`Narrowing.sameAnswer_run`), and so does a
whole chain (`sameAnswer_narrowAll`). -/

namespace Criteria

variable {ρ : Type}

/-! ## An equivalence -/

namespace View

theorem sameSelection_iff {a b : View ρ} :
    a.sameSelection b = true ↔ a.source.tag = b.source.tag ∧ a.positions = b.positions := by
  rw [sameSelection, Bool.and_eq_true, beq_iff_eq, beq_iff_eq]

theorem sameSelection_equivalence :
    Equivalence fun a b : View ρ => a.sameSelection b = true where
  refl _ := sameSelection_iff.2 ⟨rfl, rfl⟩
  symm h := by
    obtain ⟨htag, hpositions⟩ := sameSelection_iff.1 h
    exact sameSelection_iff.2 ⟨htag.symm, hpositions.symm⟩
  trans h h' := by
    obtain ⟨htag, hpositions⟩ := sameSelection_iff.1 h
    obtain ⟨htag', hpositions'⟩ := sameSelection_iff.1 h'
    exact sameSelection_iff.2 ⟨htag.trans htag', hpositions.trans hpositions'⟩

/-- A view selects the same as one that lists its positions. -/
theorem sameSelection_listed (v : View ρ) : v.sameSelection ⟨v.source, some v.positions⟩ = true :=
  sameSelection_iff.2 ⟨rfl, rfl⟩

theorem sameSelection_of_tag_ne {a b : View ρ} (h : a.source.tag ≠ b.source.tag) :
    a.sameSelection b = false :=
  Bool.eq_false_iff.2 fun hsame => h (sameSelection_iff.1 hsame).1

end View

/-! ## One source -/

/-- The source is the object of its tag, where a tag names one list of rows. -/
def Source.In (heap : Nat → List ρ) (s : Source ρ) : Prop := s.rows = heap s.tag

variable {e : Entity ρ} {heap : Nat → List ρ} {a b : View ρ}

theorem Source.eq_of_tag_eq {s t : Source ρ} (hs : s.In heap) (ht : t.In heap)
    (htag : s.tag = t.tag) : s = t := by
  have hrows : s.rows = t.rows := by rw [hs, ht, htag]
  cases s
  cases t
  cases htag
  cases hrows
  rfl

theorem View.sameSelection_iff_of_in (ha : a.source.In heap) (hb : b.source.In heap) :
    a.sameSelection b = true ↔ a.source = b.source ∧ a.positions = b.positions := by
  rw [sameSelection_iff]
  exact and_congr_left' ⟨Source.eq_of_tag_eq ha hb, congrArg Source.tag⟩

/-! ## Observers -/

namespace View

variable (hsource : a.source = b.source) (hpositions : a.positions = b.positions)
include hsource hpositions

theorem items_congr : a.items = b.items := by
  rw [items_eq, items_eq, hsource, hpositions]

theorem positions_narrow_congr (f : Filter) :
    (a.narrow e f).positions = (b.narrow e f).positions := by
  have hmeets : a.meets e f = b.meets e f := by
    funext i
    rw [meets, meets, hsource]
  rw [positions_narrow, positions_narrow, hpositions, hmeets]

/-- The row that an identifier is looked up to is the same. -/
theorem findById_congr (env : Environment) (point : Endpoint) (who : Principal) (id : Literal) :
    (point.findById env e who a id).outcome = (point.findById env e who b id).outcome := by
  have hfirst : ∀ f, (a.narrow e f).first? = (b.narrow e f).first? := fun f =>
    congrArg List.head? (items_congr hsource (positions_narrow_congr hsource hpositions f))
  simp only [Endpoint.outcome_findById_eq, hfirst]

end View

/-! ## Steps -/

/-- Both fail with the same report, or both come to views that select the same. -/
inductive SameAnswer : Except Report (View ρ) → Except Report (View ρ) → Prop where
  | refused (r : Report) : SameAnswer (.error r) (.error r)
  | selected {v w : View ρ} (h : v.sameSelection w = true) : SameAnswer (.ok v) (.ok w)

/-- What a step comes to does not depend on how the positions of the view are kept, even if it
leaves the view as it is. -/
theorem Narrowing.run_congr (step : Narrowing) (ha : a.InBounds) (hb : b.InBounds)
    (hsource : a.source = b.source) (hpositions : a.positions = b.positions) :
    (∃ r, step.run e a = .error r ∧ step.run e b = .error r) ∨
      ∃ v w, step.run e a = .ok v ∧ step.run e b = .ok w ∧ v.source = w.source ∧
        v.positions = w.positions := by
  cases hf : step.condition e.toSchema with
  | error r =>
      obtain ⟨_, -, hrun⟩ := step.run_eq e a
      obtain ⟨_, -, hrun'⟩ := step.run_eq e b
      rw [hf] at hrun hrun'
      exact Or.inl ⟨r, hrun, hrun'⟩
  | ok f =>
      obtain ⟨v, hv⟩ := (step.run_ok_iff e a).2 ⟨f, hf⟩
      obtain ⟨w, hw⟩ := (step.run_ok_iff e b).2 ⟨f, hf⟩
      obtain ⟨hvsource, hvpositions⟩ := positions_run ha hv
      obtain ⟨hwsource, hwpositions⟩ := positions_run hb hw
      refine Or.inr ⟨v, w, hv, hw, ?_, ?_⟩
      · rw [hvsource, hwsource, hsource]
      · rw [hvpositions, hwpositions, hsource, hpositions]

theorem Narrowing.sameAnswer_run (step : Narrowing) (ha : a.InBounds) (hb : b.InBounds)
    (hsource : a.source = b.source) (hpositions : a.positions = b.positions) :
    SameAnswer (step.run e a) (step.run e b) := by
  rcases step.run_congr (e := e) ha hb hsource hpositions with
    ⟨r, hr, hr'⟩ | ⟨v, w, hv, hw, hsource', hpositions'⟩
  · rw [hr, hr']
    exact .refused r
  · rw [hv, hw]
    exact .selected (View.sameSelection_iff.2 ⟨congrArg Source.tag hsource', hpositions'⟩)

/-- A chain of steps on views that select the same ends at the same step, or comes to views that
select the same. -/
theorem sameAnswer_narrowAll (steps : List Narrowing) (ha : a.InBounds) (hb : b.InBounds)
    (hsource : a.source = b.source) (hpositions : a.positions = b.positions) :
    SameAnswer (narrowAll e a steps) (narrowAll e b steps) := by
  induction steps generalizing a b with
  | nil => exact .selected (View.sameSelection_iff.2 ⟨congrArg Source.tag hsource, hpositions⟩)
  | cons step steps ih =>
      rw [narrowAll, narrowAll, List.foldlM_cons, List.foldlM_cons]
      rcases step.run_congr (e := e) ha hb hsource hpositions with
        ⟨r, hr, hr'⟩ | ⟨v, w, hv, hw, hsource', hpositions'⟩
      · rw [hr, hr']
        exact .refused r
      · rw [hv, hw]
        exact ih (Narrowing.inBounds_run ha hv) (Narrowing.inBounds_run hb hw) hsource' hpositions'

/-- **Views that select the same cannot be told apart.** Selecting the same is an equivalence of
views; it does not matter whether a view lists its positions, and views of different objects never
select the same. Reachable views that select the same agree in length, in being empty, in their
items and in the first of them, and look up the same row for an identifier. They stay alike when
they are narrowed: by a filter of any shape, by listing with a payload, which may fail with the same
report on both, and by any chain of such steps. -/
theorem View.sameSelection_congruence (e : Entity ρ) (heap : Nat → List ρ) :
    (Equivalence fun a b : View ρ => a.sameSelection b = true) ∧
    (∀ v : View ρ, v.sameSelection ⟨v.source, some v.positions⟩ = true) ∧
    (∀ a b : View ρ, a.source.tag ≠ b.source.tag → a.sameSelection b = false) ∧
    ∀ a b : View ρ, a.Reachable e → b.Reachable e → a.source.In heap → b.source.In heap →
      a.sameSelection b = true →
      a.length = b.length ∧ a.isEmpty = b.isEmpty ∧ a.items = b.items ∧ a.first? = b.first? ∧
      (∀ f, (a.narrow e f).sameSelection (b.narrow e f) = true) ∧
      (∀ env (point : Endpoint) who payload,
        SameAnswer (point.findMany env e who a payload).outcome
          (point.findMany env e who b payload).outcome) ∧
      (∀ env (point : Endpoint) who id,
        (point.findById env e who a id).outcome = (point.findById env e who b id).outcome) ∧
      ∀ steps, SameAnswer (narrowAll e a steps) (narrowAll e b steps) := by
  refine ⟨sameSelection_equivalence, sameSelection_listed, fun _ _ => sameSelection_of_tag_ne, ?_⟩
  intro a b ha hb haheap hbheap hsame
  obtain ⟨hsource, hpositions⟩ := (sameSelection_iff_of_in haheap hbheap).1 hsame
  have hlength : a.length = b.length := by
    rw [length_eq_length_positions, length_eq_length_positions, hpositions]
  have hitems := items_congr hsource hpositions
  have habounds := ha.ordered.inBounds
  have hbbounds := hb.ordered.inBounds
  refine ⟨hlength, ?_, hitems, congrArg List.head? hitems, ?_, ?_, ?_, ?_⟩
  · rw [isEmpty, isEmpty, hlength]
  · intro f
    exact sameSelection_iff.2
      ⟨congrArg Source.tag hsource, positions_narrow_congr hsource hpositions f⟩
  · intro env point who payload
    exact (Narrowing.list env point who payload).sameAnswer_run habounds hbbounds hsource hpositions
  · intro env point who id
    exact findById_congr hsource hpositions env point who id
  · intro steps
    exact sameAnswer_narrowAll steps habounds hbbounds hsource hpositions

/-- Three pairs again, with the positions listed. -/
def threePairsListed : View (Int64 × Int64) := ⟨threePairs.source, some [0, 1, 2]⟩

theorem View.sameSelection_congruence_listed :
    threePairs.sameSelection threePairsListed = true ∧
    threePairs.sameSelection ⟨⟨1, threePairs.source.rows⟩, none⟩ = false ∧
    threePairs.length = threePairsListed.length ∧ threePairs.items = threePairsListed.items ∧
    (threePairs.narrow pairs (.compare .equal "P" (.int 1))).sameSelection
      (threePairsListed.narrow pairs (.compare .equal "P" (.int 1))) = true ∧
    ∀ steps, SameAnswer (narrowAll pairs threePairs steps)
      (narrowAll pairs threePairsListed steps) := by
  obtain ⟨-, hlisted, hobjects, hreachable⟩ :=
    sameSelection_congruence pairs fun _ => threePairs.source.rows
  have hwhole : threePairs.Reachable pairs := .all threePairs.source
  have hlist : threePairsListed.Reachable pairs :=
    .step (.filter .always) hwhole rfl
  obtain ⟨hlength, -, hitems, -, hnarrow, -, -, hchain⟩ :=
    hreachable threePairs threePairsListed hwhole hlist rfl rfl (hlisted threePairs)
  exact ⟨hlisted threePairs, hobjects _ _ (by decide), hlength, hitems, hnarrow _, hchain⟩

end Criteria
