import Criteria.Compile
import Criteria.Proofs.Filter

set_option autoImplicit false

/-! # What compiling a list of criteria comes to

One step of `compileFrom` either ends with the report of the criterion at hand or joins its
comparison to the filter so far (`outcome_compileFrom_cons`). Everything else follows by induction
from that step: compiling succeeds if and only if every criterion can be compiled by itself
(`compileFrom_ok_iff`), the report of a list is the one of its first bad criterion at its position
(`compileFrom_error_iff`), and the comparisons of the compiled filter are those of the criteria, in
order (`leaves_compileFrom`). -/

namespace Criteria

/-- A result of two steps is one of the second on a result of the first. -/
theorem bind_eq_ok_iff {ε α β : Type} {x : Except ε α} {f : α → Except ε β} {b : β} :
    (x >>= f) = .ok b ↔ ∃ a, x = .ok a ∧ f a = .ok b := by
  cases x with
  | error e => simp [bind, Except.bind]
  | ok a => simp [bind, Except.bind]

/-- Two steps fail at the first of them, or at the second on a result of the first. -/
theorem bind_eq_error_iff {ε α β : Type} {x : Except ε α} {f : α → Except ε β} {e : ε} :
    (x >>= f) = .error e ↔ x = .error e ∨ ∃ a, x = .ok a ∧ f a = .error e := by
  cases x with
  | error e' => simp [bind, Except.bind]
  | ok a => simp [bind, Except.bind]

/-! ## One criterion -/

theorem Schema.name_of_field? {s : Schema} {name : String} {field : Field}
    (h : s.field? name = some field) : field.name = name := by
  have hname := List.find?_some h
  simpa using hname

theorem Schema.resolve_eq_ok_iff {s : Schema} {property : String} {field : Field} :
    s.resolve property = .ok field ↔ s.field? property = some field := by
  unfold Schema.resolve
  cases s.field? property <;> simp

theorem Criterion.constant_eq_ok_iff {c : Criterion} {s : Schema} {field : Field} {v : Value} :
    c.constant s field = .ok v ↔ c.value.coerce field = .ok v := by
  unfold Criterion.constant
  cases c.value.coerce field <;> simp

theorem Criterion.comparison_eq_ok_iff {c : Criterion} {s : Schema} {field : Field}
    {op : Operator} :
    c.comparison s field = .ok op ↔ Operator.ofToken? c.operator = some op ∧
      (op.isOrdering = true → field.kind.isOrderable = true) := by
  unfold Criterion.comparison Operator.resolve
  cases Operator.ofToken? c.operator with
  | none => simp [bind, Except.bind]
  | some op' =>
      show (if op'.isOrdering && !field.kind.isOrderable then _ else Except.ok op') = _ ↔ _
      split
      · next h =>
          rw [Bool.and_eq_true, Bool.not_eq_true'] at h
          constructor
          · intro hop
            cases hop
          · rintro ⟨hop, hord⟩
            cases hop
            exact absurd (hord h.1) (by simp [h.2])
      · next h =>
          rw [Bool.and_eq_true, Bool.not_eq_true', not_and, Bool.not_eq_false] at h
          constructor
          · intro hop
            cases hop
            exact ⟨rfl, h⟩
          · rintro ⟨hop, -⟩
            cases hop
            rfl

/-- What a criterion has to name so that it can be compiled, and the comparison that it becomes. -/
theorem Criterion.filter_eq_ok_iff {c : Criterion} {s : Schema} {f : Filter} :
    c.filter s = .ok f ↔ ∃ field value op, s.field? c.property = some field ∧
      c.value.coerce field = .ok value ∧ Operator.ofToken? c.operator = some op ∧
      (op.isOrdering = true → field.kind.isOrderable = true) ∧
      f = .compare op c.property value := by
  unfold Criterion.filter
  simp only [bind_eq_ok_iff, Schema.resolve_eq_ok_iff, constant_eq_ok_iff, comparison_eq_ok_iff]
  constructor
  · rintro ⟨field, hfield, value, hvalue, op, ⟨hop, hord⟩, hf⟩
    cases hf
    exact ⟨field, value, op, hfield, hvalue, hop, hord,
      by rw [Schema.name_of_field? hfield]⟩
  · rintro ⟨field, value, op, hfield, hvalue, hop, hord, rfl⟩
    exact ⟨field, hfield, value, hvalue, op, ⟨hop, hord⟩,
      by rw [Schema.name_of_field? hfield]; rfl⟩

/-- Why a criterion cannot be compiled, and the report on it. The checks come in the order of the
cases: each is made only if those before it passed. -/
inductive Criterion.Refused (c : Criterion) (s : Schema) : Report → Prop where
  /-- There is no field of the name. -/
  | property (hfield : s.field? c.property = none) :
      Refused c s (.unknownProperty s.name c.property s.fieldNames)
  /-- The literal is no value of the field. -/
  | value {field : Field} {e : CoercionError} (hfield : s.field? c.property = some field)
      (hvalue : c.value.coerce field = .error e) :
      Refused c s (((Report.invalidValue s.name field.name e.message).withOperator
        c.operator).withSource (.coercion e))
  /-- The token names no operator. -/
  | operator {field : Field} {v : Value} (hfield : s.field? c.property = some field)
      (hvalue : c.value.coerce field = .ok v) (hop : Operator.ofToken? c.operator = none) :
      Refused c s (.unsupportedOperator c.operator)
  /-- The operator asks for an order that the kind of the field does not have. -/
  | order {field : Field} {v : Value} {op : Operator} (hfield : s.field? c.property = some field)
      (hvalue : c.value.coerce field = .ok v) (hop : Operator.ofToken? c.operator = some op)
      (hordering : op.isOrdering = true) (hkind : field.kind.isOrderable = false) :
      Refused c s (.operatorNotApplicable s.name field.name c.operator field.kind.name)

theorem Schema.resolve_eq_error_iff {s : Schema} {property : String} {r : Report} :
    s.resolve property = .error r ↔
      s.field? property = none ∧ r = .unknownProperty s.name property s.fieldNames := by
  unfold Schema.resolve
  cases s.field? property <;> simp [eq_comm]

theorem Criterion.constant_eq_error_iff {c : Criterion} {s : Schema} {field : Field}
    {r : Report} :
    c.constant s field = .error r ↔ ∃ e, c.value.coerce field = .error e ∧
      r = ((Report.invalidValue s.name field.name e.message).withOperator c.operator).withSource
        (.coercion e) := by
  unfold Criterion.constant
  cases c.value.coerce field <;> simp [eq_comm]

theorem Criterion.comparison_eq_error_iff {c : Criterion} {s : Schema} {field : Field}
    {r : Report} :
    c.comparison s field = .error r ↔
      Operator.ofToken? c.operator = none ∧ r = .unsupportedOperator c.operator ∨
      ∃ op, Operator.ofToken? c.operator = some op ∧ op.isOrdering = true ∧
        field.kind.isOrderable = false ∧
        r = .operatorNotApplicable s.name field.name c.operator field.kind.name := by
  unfold Criterion.comparison Operator.resolve
  cases Operator.ofToken? c.operator with
  | none =>
      simp only [bind, Except.bind, Except.error.injEq]
      simp [@eq_comm Report r]
  | some op =>
      show (if op.isOrdering && !field.kind.isOrderable then Except.error _ else .ok op) = _ ↔ _
      cases hordering : op.isOrdering <;> cases hkind : field.kind.isOrderable <;>
        simp [hordering, @eq_comm Report r]

/-- A criterion that cannot be compiled fails at the first check that it does not pass. -/
theorem Criterion.filter_eq_error_iff {c : Criterion} {s : Schema} {r : Report} :
    c.filter s = .error r ↔ c.Refused s r := by
  unfold Criterion.filter
  simp only [bind_eq_error_iff, Schema.resolve_eq_error_iff, constant_eq_error_iff,
    comparison_eq_error_iff, Schema.resolve_eq_ok_iff, constant_eq_ok_iff]
  constructor
  · rintro (⟨hfield, rfl⟩ | ⟨field, hfield, h⟩)
    · exact .property hfield
    rcases h with ⟨e, hvalue, rfl⟩ | ⟨v, hvalue, h⟩
    · exact .value hfield hvalue
    rcases h with (⟨hop, rfl⟩ | ⟨op, hop, hordering, hkind, rfl⟩) | ⟨op, -, h⟩
    · exact .operator hfield hvalue hop
    · exact .order hfield hvalue hop hordering hkind
    · cases h
  · intro h
    cases h with
    | property hfield => exact Or.inl ⟨hfield, rfl⟩
    | value hfield hvalue => exact Or.inr ⟨_, hfield, Or.inl ⟨_, hvalue, rfl⟩⟩
    | operator hfield hvalue hop =>
        exact Or.inr ⟨_, hfield, Or.inr ⟨_, hvalue, Or.inl (Or.inl ⟨hop, rfl⟩)⟩⟩
    | order hfield hvalue hop hordering hkind =>
        exact Or.inr ⟨_, hfield, Or.inr ⟨_, hvalue,
          Or.inl (Or.inr ⟨_, hop, hordering, hkind, rfl⟩)⟩⟩

/-- A literal that is no value of its field is refused whatever the operator is. -/
theorem Criterion.filter_of_coerce_eq_error {c : Criterion} {s : Schema} {field : Field}
    {e : CoercionError} (hfield : s.field? c.property = some field)
    (he : c.value.coerce field = .error e) :
    c.filter s = .error (((Report.invalidValue s.name field.name e.message).withOperator
      c.operator).withSource (.coercion e)) :=
  filter_eq_error_iff.2 (.value hfield he)

/-- The report on a criterion by itself does not say where it stands in a list. -/
theorem Criterion.Refused.index_eq_none {c : Criterion} {s : Schema} {r : Report}
    (h : c.Refused s r) : r.context.index = none := by
  cases h with
  | property hfield =>
      unfold Report.unknownProperty
      dsimp only
      split <;> rfl
  | value | operator | order => rfl

/-! ## One step -/

/-- The filter so far, joined to the comparison of a criterion on a property. -/
def Filter.joinNext (previous : Option String) (property : String) (combined one : Filter) :
    Filter :=
  match previous with
  | none => one
  | some p => if p = property then combined.orElse one else combined.andThen one

theorem Filter.leaves_joinNext {previous : Option String} {combined : Filter}
    (h : previous = none → combined = .always) (property : String) (one : Filter) :
    (joinNext previous property combined one).leaves = combined.leaves ++ one.leaves := by
  unfold joinNext
  split
  · rw [h rfl]
    rfl
  · split
    · exact leaves_orElse combined one
    · exact leaves_andThen combined one

section

variable (env : Environment) (s : Schema)

@[simp] theorem outcome_compileFrom_nil (index : Nat) (previous : Option String)
    (combined : Filter) : (compileFrom env s index previous combined []).outcome = .ok combined :=
  rfl

theorem outcome_compileFrom_cons (index : Nat) (previous : Option String) (combined : Filter)
    (c : Criterion) (cs : List Criterion) :
    (compileFrom env s index previous combined (c :: cs)).outcome =
      match c.filter s with
      | .ok one => (compileFrom env s (index + 1) (some c.property)
          (combined.joinNext previous c.property one) cs).outcome
      | .error r => .error (r.atIndex index) := by
  rw [compileFrom, Traced.outcome_bind]
  cases c.filter s with
  | error r => rfl
  | ok one => rfl

end

/-! ## A whole run -/

variable {env : Environment} {s : Schema}

theorem compileFrom_ok_iff {index : Nat} {previous : Option String} {combined : Filter}
    {cs : List Criterion} :
    (∃ f, (compileFrom env s index previous combined cs).outcome = .ok f) ↔
      ∀ c ∈ cs, ∃ f, c.filter s = .ok f := by
  induction cs generalizing index previous combined with
  | nil => simp
  | cons c cs ih =>
      rw [outcome_compileFrom_cons]
      cases hc : c.filter s with
      | error r => simp [hc]
      | ok one => simp [hc, ih]

/-- The criterion at position `i` is the first that cannot be compiled by itself, and this is its
report. -/
def FirstFault (s : Schema) (cs : List Criterion) (i : Nat) (r : Report) : Prop :=
  (∃ c, cs[i]? = some c ∧ c.filter s = .error r) ∧
    ∀ j d, j < i → cs[j]? = some d → ∃ f, d.filter s = .ok f

theorem firstFault_zero {c : Criterion} {cs : List Criterion} {r : Report} :
    FirstFault s (c :: cs) 0 r ↔ c.filter s = .error r := by
  simp [FirstFault]

theorem firstFault_succ {c : Criterion} {cs : List Criterion} {i : Nat} {r : Report} :
    FirstFault s (c :: cs) (i + 1) r ↔ (∃ f, c.filter s = .ok f) ∧ FirstFault s cs i r := by
  constructor
  · rintro ⟨hi, hbefore⟩
    refine ⟨hbefore 0 c (Nat.succ_pos i) rfl, hi, ?_⟩
    intro j d hj hd
    exact hbefore (j + 1) d (Nat.succ_lt_succ hj) hd
  · rintro ⟨hc, hi, hbefore⟩
    refine ⟨hi, ?_⟩
    intro j d hj hd
    cases j with
    | zero =>
        cases hd
        exact hc
    | succ j => exact hbefore j d (Nat.lt_of_succ_lt_succ hj) hd

/-- Only the criteria up to the fault matter. -/
theorem FirstFault.congr {cs ds : List Criterion} {i : Nat} {r : Report}
    (h : FirstFault s cs i r) (hagree : ∀ j, j ≤ i → ds[j]? = cs[j]?) : FirstFault s ds i r := by
  obtain ⟨⟨c, hc, hr⟩, hbefore⟩ := h
  refine ⟨⟨c, by rw [hagree i (Nat.le_refl i), hc], hr⟩, ?_⟩
  intro j d hj hd
  rw [hagree j (Nat.le_of_lt hj)] at hd
  exact hbefore j d hj hd

/-- A run ends with the report of the first criterion that cannot be compiled by itself, at its
position. -/
theorem compileFrom_error_iff {index : Nat} {previous : Option String} {combined : Filter}
    {cs : List Criterion} {r : Report} :
    (compileFrom env s index previous combined cs).outcome = .error r ↔
      ∃ i r', FirstFault s cs i r' ∧ r = r'.atIndex (index + i) := by
  -- The fault is at the first criterion, or it is one of the others, a position further.
  induction cs generalizing index previous combined with
  | nil => simp [FirstFault]
  | cons c cs ih =>
      rw [outcome_compileFrom_cons]
      cases hc : c.filter s with
      | error r' =>
          constructor
          · intro h
            cases h
            exact ⟨0, r', firstFault_zero.2 hc, rfl⟩
          · rintro ⟨i, r'', hfault, rfl⟩
            cases i with
            | zero =>
                rw [firstFault_zero, hc] at hfault
                cases hfault
                rfl
            | succ i =>
                obtain ⟨f, hf⟩ := (firstFault_succ.1 hfault).1
                rw [hc] at hf
                exact absurd hf (by simp)
      | ok one =>
          rw [ih]
          constructor
          · rintro ⟨i, r', hfault, rfl⟩
            refine ⟨i + 1, r', firstFault_succ.2 ⟨⟨one, hc⟩, hfault⟩, ?_⟩
            rw [Nat.add_right_comm, Nat.add_assoc]
          · rintro ⟨i, r', hfault, rfl⟩
            cases i with
            | zero =>
                rw [firstFault_zero, hc] at hfault
                exact absurd hfault (by simp)
            | succ i =>
                refine ⟨i, r', (firstFault_succ.1 hfault).2, ?_⟩
                rw [Nat.add_right_comm, Nat.add_assoc]

theorem compile_error_iff {cs : List Criterion} {r : Report} :
    (compile env s cs).outcome = .error r ↔ ∃ i r', FirstFault s cs i r' ∧ r = r'.atIndex i := by
  unfold compile
  simp only [compileFrom_error_iff, Nat.zero_add]

/-- The comparisons of a compiled filter are those of the criteria, in order, behind those of the
filter that the run started from. -/
theorem leaves_compileFrom {index : Nat} {previous : Option String} {combined f : Filter}
    {cs : List Criterion} (hstart : previous = none → combined = .always)
    (hf : (compileFrom env s index previous combined cs).outcome = .ok f) :
    ∃ ls : List Leaf, cs.map (Criterion.filter · s) = ls.map (fun l => .ok l.filter) ∧
      f.leaves = combined.leaves ++ ls := by
  induction cs generalizing index previous combined with
  | nil =>
      cases hf
      exact ⟨[], rfl, by simp⟩
  | cons c cs ih =>
      rw [outcome_compileFrom_cons] at hf
      cases hc : c.filter s with
      | error r =>
          rw [hc] at hf
          exact absurd hf (by simp)
      | ok one =>
          rw [hc] at hf
          obtain ⟨ls, hls, hleaves⟩ := ih (by simp) hf
          obtain ⟨field, value, op, -, -, -, -, rfl⟩ := Criterion.filter_eq_ok_iff.1 hc
          refine ⟨⟨op, c.property, value⟩ :: ls, ?_, ?_⟩
          · rw [List.map_cons, List.map_cons, hls, hc]
            rfl
          · rw [hleaves, Filter.leaves_joinNext hstart, List.append_assoc]
            rfl

theorem leaves_compile {cs : List Criterion} {f : Filter}
    (hf : (compile env s cs).outcome = .ok f) :
    cs.map (Criterion.filter · s) = f.leaves.map (fun l => .ok l.filter) := by
  obtain ⟨ls, hls, hleaves⟩ := leaves_compileFrom (fun _ => rfl) hf
  rw [hls, hleaves]
  rfl

/-- Every comparison of a compiled filter stands for one of the criteria. -/
theorem exists_filter_of_mem_leaves {cs : List Criterion} {f : Filter}
    (hf : (compile env s cs).outcome = .ok f) {l : Leaf} (hl : l ∈ f.leaves) :
    ∃ c ∈ cs, c.filter s = .ok l.filter := by
  have hmem : .ok l.filter ∈ cs.map (Criterion.filter · s) := by
    rw [leaves_compile hf]
    exact List.mem_map_of_mem hl
  exact List.mem_map.1 hmem

end Criteria
