import Criteria.Proofs.LeftSpine

set_option autoImplicit false

/-! # Laws of joining

Joining is taken over any two filters here, not only over those that criteria compile to: a node may
have no operand, or one, or one that is no condition. Two filters that are conditions become one
node of the connective, in which the operands of a first filter of the same kind stand apart
(`join_eq_node`). So the joined filter holds as the connective says (`holds_join`), and both ways of
grouping three filters hold for the same rows; but the trees are the same only where one of the
three is no condition (`join_assoc_iff`), because only the first filter is ever opened. -/

namespace Criteria

/-- What a connective makes of the verdicts on two operands. -/
def Connective.combine : Connective → Bool → Bool → Bool
  | .all => and
  | .any => or

theorem Connective.combine_assoc (k : Connective) (x y z : Bool) :
    k.combine (k.combine x y) z = k.combine x (k.combine y z) := by
  cases k with
  | all => exact Bool.and_assoc x y z
  | any => exact Bool.or_assoc x y z

theorem Connective.node_injective {k : Connective} {fs gs : List Filter}
    (h : k.node fs = k.node gs) : fs = gs := by
  cases k with
  | all => exact Filter.all.inj h
  | any => exact Filter.any.inj h

namespace Filter

variable {a b c : Filter} {k : Connective}

/-! ## No condition -/

theorem always_join (k : Connective) (f : Filter) : join k .always f = f := by
  cases k <;> rfl

theorem join_always (k : Connective) (f : Filter) : join k f .always = f := by
  cases k <;> cases f <;> rfl

/-- Conditions stay conditions. -/
theorem join_ne_always (k : Connective) (hb : b ≠ .always) : join k a b ≠ .always := by
  cases k with
  | all => exact andThen_ne_always hb
  | any => exact orElse_ne_always hb

/-! ## Two conditions -/

/-- The operands that a filter brings into a node of a kind, as its first operand: its own, if it is
such a node. -/
def operandsFor : Connective → Filter → List Filter
  | .all, .all fs => fs
  | .any, .any fs => fs
  | _, f => [f]

theorem join_eq_node (ha : a ≠ .always) (hb : b ≠ .always) :
    join k a b = k.node (operandsFor k a ++ [b]) := by
  cases k with
  | all =>
      cases a with
      | always => exact absurd rfl ha
      | all fs => cases b <;> first | rfl | exact absurd rfl hb
      | _ => cases b <;> first | rfl | exact absurd rfl hb
  | any =>
      cases a with
      | always => exact absurd rfl ha
      | any fs => cases b <;> first | rfl | exact absurd rfl hb
      | _ => cases b <;> first | rfl | exact absurd rfl hb

theorem holds_join (row : String → Value) (ha : a ≠ .always) (hb : b ≠ .always) :
    (join k a b).holds row = k.combine (a.holds row) (b.holds row) := by
  cases k with
  | all => exact holds_andThen row a b
  | any => exact holds_orElse row ha hb

theorem leafCount_join (k : Connective) (a b : Filter) :
    (join k a b).leafCount = a.leafCount + b.leafCount := by
  have hleaves : (join k a b).leaves = a.leaves ++ b.leaves := by
    cases k with
    | all => exact leaves_andThen a b
    | any => exact leaves_orElse a b
  rw [leafCount_eq_length, leafCount_eq_length, leafCount_eq_length, hleaves, List.length_append]

/-! ## Three filters -/

/-- Filters of which one is no condition are grouped either way into the same tree. -/
theorem join_assoc_of_always (k : Connective) (h : a = .always ∨ b = .always ∨ c = .always) :
    join k (join k a b) c = join k a (join k b c) := by
  rcases h with rfl | rfl | rfl
  · rw [always_join, always_join]
  · rw [join_always, always_join]
  · rw [join_always, join_always]

/-- Three conditions become a node of the first one's operands and the other two, or of the first
one's operands and one filter that is joined from the other two. -/
theorem join_assoc_iff (k : Connective) (a b c : Filter) :
    join k (join k a b) c = join k a (join k b c) ↔ a = .always ∨ b = .always ∨ c = .always := by
  refine ⟨?_, join_assoc_of_always k⟩
  intro h
  by_contra hnone
  obtain ⟨ha, hb, hc⟩ : a ≠ .always ∧ b ≠ .always ∧ c ≠ .always := by
    simpa [not_or] using hnone
  have hopened : operandsFor k (k.node (operandsFor k a ++ [b])) = operandsFor k a ++ [b] := by
    cases k <;> rfl
  have hleft : join k (join k a b) c = k.node (operandsFor k a ++ [b] ++ [c]) := by
    rw [join_eq_node (join_ne_always k hb) hc, join_eq_node ha hb, hopened]
  have hright : join k a (join k b c) = k.node (operandsFor k a ++ [join k b c]) :=
    join_eq_node ha (join_ne_always k hc)
  have hoperands := Connective.node_injective (hleft.symm.trans (h.trans hright))
  have hlength := congrArg List.length hoperands
  simp at hlength

theorem holds_join_assoc (row : String → Value) (k : Connective) (a b c : Filter) :
    (join k (join k a b) c).holds row = (join k a (join k b c)).holds row := by
  by_cases h : a = .always ∨ b = .always ∨ c = .always
  · rw [join_assoc_of_always k h]
  · obtain ⟨ha, hb, hc⟩ : a ≠ .always ∧ b ≠ .always ∧ c ≠ .always := by simpa [not_or] using h
    rw [holds_join row (join_ne_always k hb) hc, holds_join row ha hb,
      holds_join row ha (join_ne_always k hc), holds_join row hb hc, k.combine_assoc]

/-- **Laws of joining**, for any filters and any row. Both filters have to hold, or one of two that
are conditions. A filter that is no condition leaves the other as it is, on either side and for
either connective; the comparisons of the operands add up; and three filters hold for the same rows
however they are grouped, in trees that differ unless one of them is no condition. -/
theorem joining_laws (row : String → Value) (a b c : Filter) :
    ((a.andThen b).holds row = true ↔ a.holds row = true ∧ b.holds row = true) ∧
    (a ≠ .always → b ≠ .always →
      ((a.orElse b).holds row = true ↔ a.holds row = true ∨ b.holds row = true)) ∧
    ∀ k : Connective,
      join k .always a = a ∧ join k a .always = a ∧
      (join k a b).leafCount = a.leafCount + b.leafCount ∧
      (join k (join k a b) c).holds row = (join k a (join k b c)).holds row ∧
      (join k (join k a b) c = join k a (join k b c) ↔
        a = .always ∨ b = .always ∨ c = .always) := by
  refine ⟨?_, ?_, ?_⟩
  · rw [holds_andThen, Bool.and_eq_true]
  · intro ha hb
    rw [holds_orElse row ha hb, Bool.or_eq_true]
  · intro k
    exact ⟨always_join k a, join_always k a, leafCount_join k a b, holds_join_assoc row k a b c,
      join_assoc_iff k a b c⟩

/-- An alternative without operands, which holds for no row, and a node of no condition, which holds
for every row, are conditions like any other. -/
theorem joining_laws_degenerate :
    (((Filter.any []).orElse (.all [.always])).holds (fun _ => .null) = true ↔
      (Filter.any []).holds (fun _ => .null) = true ∨
        (Filter.all [.always]).holds (fun _ => .null) = true) ∧
    ((Filter.any []).join .any (.all [.always])).join .any (.all []) ≠
      (Filter.any []).join .any ((Filter.all [.always]).join .any (.all [])) := by
  obtain ⟨-, hany, hjoin⟩ := joining_laws (fun _ => .null) (.any []) (.all [.always]) (.all [])
  refine ⟨hany (by simp) (by simp), ?_⟩
  obtain ⟨-, -, -, -, hassoc⟩ := hjoin .any
  rw [Ne, hassoc]
  simp

end Filter

end Criteria
