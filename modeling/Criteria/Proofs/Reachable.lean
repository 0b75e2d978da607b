import Criteria.Proofs.Narrowing

set_option autoImplicit false

/-! # Reachable views

A view starts as the whole of a source; from there it is copied and narrowed, in any order and any
number of times (`View.Reachable`). Whichever way it came about, its positions ascend and each is
one of a row (`View.Ordered`): the whole source starts like that, and a step only leaves positions
out (`Narrowing.ordered_run`). So a row is there at each position at which one is looked up, and the
observers of a view, each of which looks by itself at how the positions are kept, tell the same
(`View.Reachable.observers_agree`). -/

namespace Criteria

variable {ρ : Type} {e : Entity ρ} {v w : View ρ}

/-! ## Observers -/

namespace View

theorem length_eq_length_positions (v : View ρ) : v.length = v.positions.length := by
  unfold length positions
  cases v.selection <;> simp

/-- A row is found at every position, and these rows are the items. -/
theorem map_getElem?_positions (hv : v.InBounds) :
    v.positions.map (fun i => v.source.rows[i]?) = v.items.map some := by
  have hfound : ∀ row? ∈ v.positions.map (fun i => v.source.rows[i]?), row?.isSome = true := by
    intro row? hrow
    obtain ⟨i, hi, rfl⟩ := List.mem_map.1 hrow
    simpa using hv i hi
  rw [items_eq, List.map_filterMap_some_eq_filter_map_isSome, List.filter_eq_self.2 hfound]

theorem length_eq_length_items (hv : v.InBounds) : v.length = v.items.length := by
  have hlengths := congrArg List.length (map_getElem?_positions hv)
  rw [List.length_map, List.length_map] at hlengths
  rw [length_eq_length_positions, hlengths]

theorem isEmpty_iff_first?_eq_none (hv : v.InBounds) : v.isEmpty = true ↔ v.first? = none := by
  unfold isEmpty first?
  rw [length_eq_length_items hv, beq_iff_eq, List.length_eq_zero_iff, List.head?_eq_none_iff]

/-! ## Ordered views -/

/-- The selected positions ascend, and each is one of a row. -/
structure Ordered (v : View ρ) : Prop where
  ascending : v.positions.Pairwise (· < ·)
  inBounds : v.InBounds

theorem ordered_all (source : Source ρ) : (View.mk source none).Ordered :=
  ⟨List.pairwise_lt_range, inBounds_all source⟩

end View

/-- A step leaves positions out and keeps the others in their order. -/
theorem Narrowing.ordered_run {step : Narrowing} (hv : v.Ordered) (hw : step.run e v = .ok w) :
    w.Ordered := by
  obtain ⟨-, hpositions⟩ := positions_run hv.inBounds hw
  refine ⟨?_, inBounds_run hv.inBounds hw⟩
  rw [hpositions]
  exact hv.ascending.filter _

/-! ## Reachable views -/

namespace View

/-- A view that the whole of a source comes to by copying and by steps that succeed. -/
inductive Reachable (e : Entity ρ) : View ρ → Prop where
  /-- All rows of a source. -/
  | all (source : Source ρ) : Reachable e ⟨source, none⟩
  /-- A copy shares the source and the selection. -/
  | copy {v : View ρ} (hv : Reachable e v) : Reachable e ⟨v.source, v.selection⟩
  /-- Listing with a payload, applying criteria or narrowing by a filter. -/
  | step {v w : View ρ} (step : Narrowing) (hv : Reachable e v) (hw : step.run e v = .ok w) :
      Reachable e w

namespace Reachable

theorem ordered (hv : v.Reachable e) : v.Ordered := by
  induction hv with
  | all source => exact ordered_all source
  | copy _ ih => exact ih
  | step step _ hw ih => exact step.ordered_run ih hw

/-- **The observers of a view agree, and none looks up a row that is not there.** The positions that
a view lists ascend, and a filter that narrows the view finds a row at each. Iterating over a view
and copying its rows out both give its items, which are the rows at its positions, in order; their
number is its length, the first of them is its first row, and it is empty if and only if there is
no first row. -/
theorem observers_agree (hv : v.Reachable e) :
    (∀ listed, v.selection = some listed →
      listed.Pairwise (· < ·) ∧ ∀ i ∈ listed, i < v.source.rows.length) ∧
    (∀ i ∈ v.positions, ∃ row, v.source.rows[i]? = some row ∧
      ∀ f, v.meets e f i = f.holds (e.value row)) ∧
    v.positions.map (fun i => v.source.rows[i]?) = v.items.map some ∧
    v.length = v.items.length ∧ v.first? = v.items.head? ∧
    (v.isEmpty = true ↔ v.first? = none) := by
  have hordered := hv.ordered
  refine ⟨?_, ?_, map_getElem?_positions hordered.inBounds,
    length_eq_length_items hordered.inBounds, rfl, isEmpty_iff_first?_eq_none hordered.inBounds⟩
  · intro listed hlisted
    have hpositions : v.positions = listed := by rw [positions, hlisted, Option.getD_some]
    rw [← hpositions]
    exact ⟨hordered.ascending, hordered.inBounds⟩
  · intro i hi
    have hrow := List.getElem?_eq_getElem (hordered.inBounds i hi)
    exact ⟨_, hrow, fun f => meets_of_row hrow⟩

end Reachable

/-- What is left of three pairs with `P = 1`, copied, and then `Q > 5`. -/
def lastPair : View (Int64 × Int64) := ⟨threePairs.source, some [2]⟩

theorem reachable_lastPair : lastPair.Reachable pairs := by
  have hones : (Narrowing.apply {} (some [⟨"P", "=", .int 1⟩])).run pairs
      ⟨threePairs.source, none⟩ = .ok ⟨threePairs.source, some [1, 2]⟩ := rfl
  have hlast : (Narrowing.filter (.compare .greater "Q" (.int 5))).run pairs
      ⟨threePairs.source, some [1, 2]⟩ = .ok lastPair := rfl
  exact (((Reachable.all threePairs.source).step _ hones).copy).step _ hlast

theorem Reachable.observers_agree_lastPair :
    lastPair.Reachable pairs ∧ lastPair.items = [(1, 9)] ∧
      ([2].Pairwise (· < ·) ∧ ∀ i ∈ [2], i < lastPair.source.rows.length) ∧
      (∀ i ∈ [2], ∃ row, lastPair.source.rows[i]? = some row ∧
        ∀ f, lastPair.meets pairs f i = f.holds (pairs.value row)) ∧
      lastPair.positions.map (fun i => lastPair.source.rows[i]?) = lastPair.items.map some ∧
      lastPair.length = lastPair.items.length ∧ lastPair.first? = lastPair.items.head? ∧
      (lastPair.isEmpty = true ↔ lastPair.first? = none) := by
  obtain ⟨hlisted, hfound⟩ := reachable_lastPair.observers_agree
  exact ⟨reachable_lastPair, rfl, hlisted [2] rfl, hfound⟩

end View

end Criteria
