import Criteria.Proofs.Compile
import Criteria.Proofs.Disclosure

set_option autoImplicit false

/-! # Where a report says that the fault is

A report on a list of criteria should say which entity was asked for and which criterion of the list
is at fault, by its property, its operator and its position (`Context.Identifies`). The position is
always there. The other members are set by the check that fails, each with what it knows: the
look-up of a property is not told the operator, and the look-up of an operator is told nothing but
the token. So reports on a constant or on an order that a kind does not have are complete, and the
other two kinds are not (`compile_identifies_fault`). -/

namespace Criteria

/-- The context says which criterion is at fault: of which entity, on which property, with which
operator and at which position. -/
structure Context.Identifies (x : Context) (s : Schema) (c : Criterion) (i : Nat) : Prop where
  entity : x.entity = some s.name
  property : x.property = some c.property
  operator : x.operator = some c.operator
  index : x.index = some i

instance (x : Context) (s : Schema) (c : Criterion) (i : Nat) : Decidable (x.Identifies s c i) :=
  decidable_of_iff (x.entity = some s.name ∧ x.property = some c.property ∧
      x.operator = some c.operator ∧ x.index = some i)
    ⟨fun ⟨hentity, hproperty, hoperator, hindex⟩ => ⟨hentity, hproperty, hoperator, hindex⟩,
      fun h => ⟨h.entity, h.property, h.operator, h.index⟩⟩

/-- What the checks of a criterion tell about it. -/
structure Context.Tells (x : Context) (s : Schema) (c : Criterion) (code : Code) : Prop where
  entity : x.entity = if code = .unsupportedOperator then none else some s.name
  property : x.property = if code = .unsupportedOperator then none else some c.property
  operator : x.operator = if code = .unknownProperty then none else some c.operator

variable {c : Criterion} {s : Schema} {r : Report}

theorem Report.context_unknownProperty (entity property : String) (available : List String) :
    let x := (Report.unknownProperty entity property available).context
    x.entity = some entity ∧ x.property = some property ∧ x.operator = none := by
  unfold Report.unknownProperty
  dsimp only
  split <;> exact ⟨rfl, rfl, rfl⟩

/-- Each check sets what it knows. -/
theorem Criterion.Refused.tells (h : c.Refused s r) : r.context.Tells s c r.code := by
  cases h with
  | property hfield =>
      obtain ⟨hentity, hproperty, hoperator⟩ :=
        Report.context_unknownProperty s.name c.property s.fieldNames
      rw [Report.code_unknownProperty]
      exact ⟨hentity, hproperty, hoperator⟩
  | value hfield hvalue => exact ⟨rfl, congrArg some (Schema.name_of_field? hfield), rfl⟩
  | operator hfield hvalue hop => exact ⟨rfl, rfl, rfl⟩
  | order hfield hvalue hop hordering hkind =>
      exact ⟨rfl, congrArg some (Schema.name_of_field? hfield), rfl⟩

/-- The look-ups of the property and of the operator come between the constant and the order, and
are the two that do not know enough. -/
theorem Criterion.Refused.known_iff (h : c.Refused s r) :
    (r.code ≠ .unknownProperty ∧ r.code ≠ .unsupportedOperator) ↔
      ∃ field, s.field? c.property = some field ∧ ((∃ e, c.value.coerce field = .error e) ∨
        ∃ op, Operator.ofToken? c.operator = some op) := by
  cases h with
  | property hfield =>
      rw [Report.code_unknownProperty, hfield]
      simp
  | value hfield hvalue =>
      exact iff_of_true ⟨Code.noConfusion, Code.noConfusion⟩ ⟨_, hfield, Or.inl ⟨_, hvalue⟩⟩
  | operator hfield hvalue hop =>
      refine iff_of_false (fun hknown => hknown.2 rfl) ?_
      rintro ⟨field, hfield', ⟨e, hvalue'⟩ | ⟨op, hop'⟩⟩
      · obtain rfl := Option.some.inj (hfield.symm.trans hfield')
        cases hvalue.symm.trans hvalue'
      · cases hop.symm.trans hop'
  | order hfield hvalue hop hordering hkind =>
      exact iff_of_true ⟨Code.noConfusion, Code.noConfusion⟩ ⟨_, hfield, Or.inr ⟨_, hop⟩⟩

/-- A context is complete if the check that failed knows the property and the operator. -/
theorem Context.Tells.identifies_iff {x : Context} {code : Code} {i : Nat} (h : x.Tells s c code)
    (hindex : x.index = some i) :
    x.Identifies s c i ↔ code ≠ .unknownProperty ∧ code ≠ .unsupportedOperator := by
  constructor
  · intro hx
    constructor
    · rintro rfl
      cases h.operator.symm.trans hx.operator
    · rintro rfl
      cases h.entity.symm.trans hx.entity
  · rintro ⟨hproperty, hoperator⟩
    refine ⟨?_, ?_, ?_, hindex⟩
    · rw [h.entity, if_neg hoperator]
    · rw [h.property, if_neg hoperator]
    · rw [h.operator, if_neg hproperty]

/-- **Where the fault is.** If a list of criteria is refused, it is because of its first criterion
that cannot be compiled, and the report gives the position of that criterion. It also gives the
entity and the property, unless the operator is unknown, and the operator, unless the property is
unknown. So the context is complete exactly if the property exists and either the constant is at
fault or the operator exists. -/
theorem compile_identifies_fault {env : Environment} {cs : List Criterion}
    (h : (compile env s cs).outcome = .error r) :
    ∃ i c, cs[i]? = some c ∧ (∃ r', c.filter s = .error r') ∧
      (∀ j d, j < i → cs[j]? = some d → ∃ f, d.filter s = .ok f) ∧
      r.context.index = some i ∧ r.context.Tells s c r.code ∧
      (r.context.Identifies s c i ↔
        ∃ field, s.field? c.property = some field ∧ ((∃ e, c.value.coerce field = .error e) ∨
          ∃ op, Operator.ofToken? c.operator = some op)) := by
  obtain ⟨i, r, ⟨⟨c, hc, hr⟩, hbefore⟩, rfl⟩ := compile_error_iff.1 h
  have hrefused := Criterion.filter_eq_error_iff.1 hr
  -- the position changes nothing else in the report
  have htells : (r.atIndex i).context.Tells s c (r.atIndex i).code :=
    ⟨hrefused.tells.entity, hrefused.tells.property, hrefused.tells.operator⟩
  refine ⟨i, c, hc, ⟨r, hr⟩, hbefore, rfl, htells, ?_⟩
  rw [htells.identifies_iff rfl]
  exact hrefused.known_iff

/-- A table of two integers. -/
def points : Schema := ⟨"Point", [⟨"P", .int, false⟩, ⟨"Q", .int, false⟩], "P"⟩

/-- The second constant is at fault; its operator, which is unknown, has not been looked up. -/
theorem compile_identifies_fault_constant :
    let criteria : List Criterion := [⟨"P", "=", .int 1⟩, ⟨"Q", "contains", .text "many"⟩]
    ∃ r, (compile {} points criteria).outcome = .error r ∧
      r.context.Identifies points ⟨"Q", "contains", .text "many"⟩ 1 := by
  intro criteria
  have hrefused : (compile {} points criteria).outcome = .error _ := rfl
  refine ⟨_, hrefused, ?_⟩
  obtain ⟨i, c, hc, -, -, hindex, -, hcomplete⟩ := compile_identifies_fault hrefused
  obtain rfl : 1 = i := Option.some.inj hindex
  obtain rfl : criteria[1] = c := Option.some.inj hc
  exact hcomplete.2 ⟨⟨"Q", .int, false⟩, rfl, Or.inl ⟨_, rfl⟩⟩

/-- An unknown operator leaves the client without the entity and the property, and an unknown
property without the operator. -/
theorem compile_fault_incomplete :
    let incomplete (c : Criterion) : Prop :=
      ∃ r, (compile {} points [⟨"P", "=", .int 1⟩, c]).outcome = .error r ∧
        ¬ r.context.Identifies points c 1
    incomplete ⟨"Q", "contains", .int 2⟩ ∧ incomplete ⟨"R", "<", .int 2⟩ := by
  intro incomplete
  refine ⟨⟨_, rfl, ?_⟩, ⟨_, rfl, ?_⟩⟩
  · decide
  · decide

end Criteria
