import Mathlib.Data.List.Forall2
import Criteria.Proofs.Disclosure

set_option autoImplicit false

/-! # What becomes of one criterion

Whether a criterion can be compiled, and why not, is said here without the program: by the first
field of its name (`Schema.FirstNamed`), the coercion of its value, the operator that its token
spells (`Operator.Spelled`) and the kinds that have no order (`Operator.InapplicableTo`). The four
faults are looked for in this order, and a report tells them apart by its code and by the fault
below it (`Criterion.filter_decided`). -/

namespace Criteria

/-! ## Letters in either case -/

namespace Text

/-- The second character is a capital letter of ASCII, and the first is its small letter. -/
def SmallOf (c d : Char) : Prop := 'A' ≤ d ∧ d ≤ 'Z' ∧ c.toNat = d.toNat + 32

/-- The same letter of ASCII in either case, or else the same character. -/
def SameLetter (c d : Char) : Prop := c = d ∨ SmallOf c d ∨ SmallOf d c

/-- The same text up to the case of ASCII letters: as long, and the same letter at each place. -/
def SameUpToCase (a b : String) : Prop := List.Forall₂ SameLetter a.toList b.toList

theorem smallOf_iff {c d : Char} :
    SmallOf c d ↔ (65 ≤ d.toNat ∧ d.toNat ≤ 90) ∧ c.toNat = d.toNat + 32 := by
  simp [SmallOf, Char.le_def, UInt32.le_iff_toNat_le, and_assoc]

theorem toNat_toLower (c : Char) :
    c.toLower.toNat = if 65 ≤ c.toNat ∧ c.toNat ≤ 90 then c.toNat + 32 else c.toNat := by
  unfold Char.toLower
  simp only [ge_iff_le, UInt32.le_iff_toNat_le, Char.toNat_val]
  split
  · next h =>
      have hcapital : 65 ≤ c.toNat ∧ c.toNat ≤ 90 := h
      have hshift : ('a'.val - 'A'.val).toNat = 32 := by decide
      have hval : c.val.toNat = c.toNat := rfl
      show (c.val + ('a'.val - 'A'.val)).toNat = _
      rw [if_pos hcapital, UInt32.toNat_add, hval, hshift]
      omega
  · next h => exact (if_neg h).symm

theorem toLower_eq_toLower_iff {c d : Char} : c.toLower = d.toLower ↔ SameLetter c d := by
  rw [SameLetter, smallOf_iff, smallOf_iff, ← Char.toNat_inj, ← Char.toNat_inj, toNat_toLower,
    toNat_toLower]
  split <;> split <;> omega

theorem sameLetters_iff_sameUpToCase {a b : String} :
    sameLetters a b = true ↔ SameUpToCase a b := by
  rw [sameLetters_iff, foldCase, foldCase, SameUpToCase, ← List.forall₂_eq_eq_eq,
    List.forall₂_map_left_iff, List.forall₂_map_right_iff]
  simp only [toLower_eq_toLower_iff]

end Text

open Text

/-! ## Operators and their tokens -/

namespace Operator

variable {op : Operator} {token token' : String}

/-- The word for an operator. -/
def word : Operator → String
  | .equal => "equals"
  | .notEqual => "notequals"
  | .greater => "greaterthan"
  | .greaterOrEqual => "greaterthanorequal"
  | .less => "lessthan"
  | .lessOrEqual => "lessthanorequal"

/-- A token spells an operator by its word or its symbol, in any case and with nothing around it. -/
def Spelled (op : Operator) (token : String) : Prop :=
  SameUpToCase op.word token ∨ SameUpToCase op.symbol token

theorem mem_tokens_iff {name : String} :
    (name, op) ∈ tokens ↔ name = op.word ∨ name = op.symbol := by
  cases op <;> simp [tokens, word, symbol]

theorem ofToken?_word (op : Operator) : ofToken? op.word = some op := by
  cases op <;> decide

/-- The case of a token makes no difference. -/
theorem ofToken?_congr (h : SameUpToCase token token') : ofToken? token = ofToken? token' := by
  rw [← sameLetters_iff_sameUpToCase, sameLetters_iff] at h
  simp only [ofToken?, sameLetters, h]

theorem ofToken?_eq_some_iff : ofToken? token = some op ↔ op.Spelled token := by
  constructor
  · intro h
    obtain ⟨⟨name, op⟩, hfind, rfl⟩ := Option.map_eq_some_iff.1 h
    have hsame : SameUpToCase name token :=
      sameLetters_iff_sameUpToCase.1 (by simpa using List.find?_some hfind)
    rcases mem_tokens_iff.1 (List.mem_of_find?_eq_some hfind) with rfl | rfl
    · exact Or.inl hsame
    · exact Or.inr hsame
  · rintro (hword | hsymbol)
    · rw [← ofToken?_congr hword, ofToken?_word]
    · rw [← ofToken?_congr hsymbol, ofToken?_symbol]

theorem ofToken?_eq_none_iff : ofToken? token = none ↔ ∀ op : Operator, ¬ op.Spelled token := by
  simp only [← ofToken?_eq_some_iff, Option.eq_none_iff_forall_ne_some, ne_eq]

/-- The operator asks for more than equality, and values of the kind have no order. -/
def InapplicableTo (op : Operator) (kind : Kind) : Prop :=
  op ≠ .equal ∧ op ≠ .notEqual ∧ (kind = .bool ∨ kind = .uuid)

theorem inapplicableTo_iff {kind : Kind} :
    op.InapplicableTo kind ↔ op.isOrdering = true ∧ kind.isOrderable = false := by
  cases op <;> cases kind <;> simp [InapplicableTo, isOrdering, Kind.isOrderable]

end Operator

/-! ## Fields and their names -/

namespace Schema

variable {s : Schema} {name : String}

/-- The field is the first of the table that has exactly this name. -/
def FirstNamed (s : Schema) (name : String) (field : Field) : Prop :=
  ∃ before after, s.fields = before ++ field :: after ∧ field.name = name ∧
    ∀ other ∈ before, other.name ≠ name

theorem field?_eq_some_iff {field : Field} :
    s.field? name = some field ↔ s.FirstNamed name field := by
  rw [field?, List.find?_eq_some_iff_append, FirstNamed]
  simp only [beq_iff_eq, Bool.not_eq_eq_eq_not, Bool.not_true, beq_eq_false_iff_ne]
  constructor
  · rintro ⟨hname, before, after, hfields, hbefore⟩
    exact ⟨before, after, hfields, hname, hbefore⟩
  · rintro ⟨before, after, hfields, hname, hbefore⟩
    exact ⟨hname, before, after, hfields, hbefore⟩

theorem field?_eq_none_iff : s.field? name = none ↔ ∀ field ∈ s.fields, field.name ≠ name := by
  simp [field?]

end Schema

/-! ## Compiling one criterion -/

namespace Criterion

variable {c : Criterion} {s : Schema} {field : Field}

/-- The criterion is refused with this code. -/
def FailsWith (c : Criterion) (s : Schema) (code : Code) : Prop :=
  ∃ r, c.filter s = .error r ∧ r.code = code

/-- What becomes of a criterion that names a field: the value is looked at first, then the token,
and then whether the operator makes sense for the kind of the field. -/
structure DecidedOn (c : Criterion) (s : Schema) (field : Field) : Prop where
  /-- The report on the value carries why it is refused, and the token. -/
  value : ∀ e, (∃ r, c.filter s = .error r ∧ r.code = .invalidValue ∧
      r.source = some (.coercion e) ∧ r.context.operator = some c.operator) ↔
    c.value.coerce field = .error e
  token : c.FailsWith s .unsupportedOperator ↔
    (∃ v, c.value.coerce field = .ok v) ∧ ∀ op : Operator, ¬ op.Spelled c.operator
  /-- The report on an operator that makes no sense has the code of one on the value. -/
  order : (∃ r, c.filter s = .error r ∧ r.code = .invalidValue ∧
      r = .operatorNotApplicable s.name field.name c.operator field.kind.name) ↔
    (∃ v, c.value.coerce field = .ok v) ∧
      ∃ op : Operator, op.Spelled c.operator ∧ op.InapplicableTo field.kind
  accepted : ∀ f, c.filter s = .ok f ↔ ∃ v op, c.value.coerce field = .ok v ∧
    op.Spelled c.operator ∧ ¬ op.InapplicableTo field.kind ∧ f = .compare op field.name v

/-- The three faults of a criterion that names a field, and the report on each. -/
theorem filter_eq_error_iff_of_firstNamed (hfield : s.FirstNamed c.property field) {r : Report} :
    c.filter s = .error r ↔
      (∃ e, c.value.coerce field = .error e ∧
        r = ((Report.invalidValue s.name field.name e.message).withOperator c.operator).withSource
          (.coercion e)) ∨
      (∃ v, c.value.coerce field = .ok v) ∧ (∀ op : Operator, ¬ op.Spelled c.operator) ∧
        r = .unsupportedOperator c.operator ∨
      (∃ v, c.value.coerce field = .ok v) ∧
        (∃ op : Operator, op.Spelled c.operator ∧ op.InapplicableTo field.kind) ∧
        r = .operatorNotApplicable s.name field.name c.operator field.kind.name := by
  have hlookup := Schema.field?_eq_some_iff.2 hfield
  rw [filter_eq_error_iff, ← Operator.ofToken?_eq_none_iff]
  simp only [← Operator.ofToken?_eq_some_iff, Operator.inapplicableTo_iff]
  constructor
  · intro h
    cases h with
    | property hnone => simp [hlookup] at hnone
    | value hfound hvalue =>
        obtain rfl := Option.some.inj (hlookup.symm.trans hfound)
        exact Or.inl ⟨_, hvalue, rfl⟩
    | operator hfound hvalue hop =>
        obtain rfl := Option.some.inj (hlookup.symm.trans hfound)
        exact Or.inr (Or.inl ⟨⟨_, hvalue⟩, hop, rfl⟩)
    | order hfound hvalue hop hordering hkind =>
        obtain rfl := Option.some.inj (hlookup.symm.trans hfound)
        exact Or.inr (Or.inr ⟨⟨_, hvalue⟩, ⟨_, hop, hordering, hkind⟩, rfl⟩)
  · rintro (⟨e, hvalue, rfl⟩ | ⟨⟨v, hvalue⟩, hop, rfl⟩ |
      ⟨⟨v, hvalue⟩, ⟨op, hop, hordering, hkind⟩, rfl⟩)
    · exact .value hlookup hvalue
    · exact .operator hlookup hvalue hop
    · exact .order hlookup hvalue hop hordering hkind

theorem decidedOn (hfield : s.FirstNamed c.property field) : c.DecidedOn s field where
  value e := by
    constructor
    · rintro ⟨r, hr, hcode, hsource, -⟩
      rcases (filter_eq_error_iff_of_firstNamed hfield).1 hr with
        ⟨e', hvalue, rfl⟩ | ⟨-, -, rfl⟩ | ⟨-, -, rfl⟩
      · cases hsource
        exact hvalue
      · cases hcode
      · cases hsource
    · intro hvalue
      exact ⟨_, (filter_eq_error_iff_of_firstNamed hfield).2 (Or.inl ⟨e, hvalue, rfl⟩), rfl, rfl,
        rfl⟩
  token := by
    constructor
    · rintro ⟨r, hr, hcode⟩
      rcases (filter_eq_error_iff_of_firstNamed hfield).1 hr with
        ⟨e, -, rfl⟩ | ⟨hvalue, hop, -⟩ | ⟨-, -, rfl⟩
      · cases hcode
      · exact ⟨hvalue, hop⟩
      · cases hcode
    · rintro ⟨hvalue, hop⟩
      exact ⟨_, (filter_eq_error_iff_of_firstNamed hfield).2 (Or.inr (Or.inl ⟨hvalue, hop, rfl⟩)),
        rfl⟩
  order := by
    constructor
    · rintro ⟨r, hr, -, rfl⟩
      rcases (filter_eq_error_iff_of_firstNamed hfield).1 hr with
        ⟨e, -, hreport⟩ | ⟨-, -, hreport⟩ | ⟨hvalue, hop, -⟩
      · cases congrArg Report.source hreport
      · cases congrArg Report.code hreport
      · exact ⟨hvalue, hop⟩
    · rintro ⟨hvalue, hop⟩
      exact ⟨_, (filter_eq_error_iff_of_firstNamed hfield).2 (Or.inr (Or.inr ⟨hvalue, hop, rfl⟩)),
        rfl, rfl⟩
  accepted f := by
    have hlookup := Schema.field?_eq_some_iff.2 hfield
    have hname := Schema.name_of_field? hlookup
    rw [filter_eq_ok_iff]
    simp only [hlookup, Option.some.injEq, hname, ← Operator.ofToken?_eq_some_iff,
      Operator.inapplicableTo_iff, not_and, Bool.not_eq_false]
    constructor
    · rintro ⟨_, v, op, rfl, hvalue, hop, horder, hf⟩
      exact ⟨v, op, hvalue, hop, horder, hf⟩
    · rintro ⟨v, op, hvalue, hop, horder, hf⟩
      exact ⟨field, v, op, rfl, hvalue, hop, horder, hf⟩

theorem failsWith_unknownProperty_iff :
    c.FailsWith s .unknownProperty ↔ ∀ field ∈ s.fields, field.name ≠ c.property := by
  rw [← Schema.field?_eq_none_iff]
  constructor
  · rintro ⟨r, hr, hcode⟩
    cases filter_eq_error_iff.1 hr with
    | property hnone => exact hnone
    | value | operator | order => cases hcode
  · intro hnone
    exact ⟨_, filter_eq_error_iff.2 (.property hnone), Report.code_unknownProperty _ _ _⟩

/-- Another token of the same operator makes no difference to what is accepted. -/
theorem filter_eq_ok_iff_of_token {token : String}
    (h : Operator.ofToken? token = Operator.ofToken? c.operator) {f : Filter} :
    ({ c with operator := token } : Criterion).filter s = .ok f ↔ c.filter s = .ok f := by
  simp only [filter_eq_ok_iff, h]

/-- **What becomes of one criterion.** It is refused for its property exactly if no field of the
table has this very name. Otherwise the first field of the name decides: the value is refused
exactly if it cannot be coerced, then the token exactly if it spells no operator, then the operator
exactly if it asks for an order that the kind of the field does not have; and a criterion with none
of these faults becomes the comparison of the field with the value. What is accepted stays the same
if the token is written in another case or the operator is named by its other token. -/
theorem filter_decided (c : Criterion) (s : Schema) :
    (c.FailsWith s .unknownProperty ↔ ∀ field ∈ s.fields, field.name ≠ c.property) ∧
    (∀ field, s.FirstNamed c.property field → c.DecidedOn s field) ∧
    ∀ token, SameUpToCase c.operator token ∨
        (∃ op : Operator, op.Spelled c.operator ∧ op.Spelled token) →
      ∀ f, ({ c with operator := token } : Criterion).filter s = .ok f ↔ c.filter s = .ok f := by
  refine ⟨failsWith_unknownProperty_iff, fun field => decidedOn, ?_⟩
  rintro token (hcase | ⟨op, hop, hop'⟩) f
  · exact filter_eq_ok_iff_of_token (Operator.ofToken?_congr hcase).symm
  · rw [← Operator.ofToken?_eq_some_iff] at hop hop'
    exact filter_eq_ok_iff_of_token (hop'.trans hop.symm)

/-- A table with a truth value and, behind it, an integer of the same name. -/
def switches : Schema := ⟨"Switch", [⟨"Open", .bool, false⟩, ⟨"Open", .int, false⟩], "Open"⟩

theorem switches_firstNamed : switches.FirstNamed "Open" ⟨"Open", .bool, false⟩ :=
  ⟨[], [⟨"Open", .int, false⟩], rfl, rfl, by simp⟩

/-- Of several faults the first is reported: the name in another case, then null, then the blank in
the token, then the order of truth values; and without a fault the case of the token is dropped. -/
theorem filter_decided_switches :
    (⟨"open", "> ", .null⟩ : Criterion).FailsWith switches .unknownProperty ∧
    (∃ r, (⟨"Open", "> ", .null⟩ : Criterion).filter switches = .error r ∧
      r.code = .invalidValue ∧ r.source = some (.coercion (.nullNotAllowed .bool)) ∧
      r.context.operator = some "> ") ∧
    (⟨"Open", "> ", .int 2⟩ : Criterion).FailsWith switches .unsupportedOperator ∧
    (∃ r, (⟨"Open", "GreaterThan", .int 2⟩ : Criterion).filter switches = .error r ∧
      r.code = .invalidValue ∧
      r = .operatorNotApplicable "Switch" "Open" "GreaterThan" "Bool") ∧
    ∀ token ∈ ["=", "Equals", "EQUALS"], (⟨"Open", token, .int 2⟩ : Criterion).filter switches =
      .ok (.compare .equal "Open" (.bool true)) := by
  have hcoerce : (Literal.int 2).coerce ⟨"Open", .bool, false⟩ = .ok (.bool true) := by rfl
  have hspelled (token : String) (htoken : token ∈ ["=", "Equals", "EQUALS"]) :
      Operator.equal.Spelled token := by
    rw [← Operator.ofToken?_eq_some_iff]
    revert htoken token
    decide
  have hdecided (c : Criterion) (hname : c.property = "Open") :
      c.DecidedOn switches ⟨"Open", .bool, false⟩ := by
    obtain ⟨-, hdecided, -⟩ := filter_decided c switches
    exact hdecided _ (hname ▸ switches_firstNamed)
  refine ⟨?_, ?_, ?_, ?_, ?_⟩
  · exact (filter_decided ⟨"open", "> ", .null⟩ switches).1.2 (by simp [switches])
  · exact ((hdecided ⟨"Open", "> ", .null⟩ rfl).value _).2 rfl
  · refine (hdecided ⟨"Open", "> ", .int 2⟩ rfl).token.2 ⟨⟨_, hcoerce⟩, ?_⟩
    exact Operator.ofToken?_eq_none_iff.1 (by decide)
  · refine (hdecided ⟨"Open", "GreaterThan", .int 2⟩ rfl).order.2 ⟨⟨_, hcoerce⟩, .greater, ?_, ?_⟩
    · exact Operator.ofToken?_eq_some_iff.1 (by decide)
    · simp [Operator.InapplicableTo]
  · intro token htoken
    refine ((hdecided ⟨"Open", token, .int 2⟩ rfl).accepted _).2 ⟨_, .equal, hcoerce, ?_, ?_, rfl⟩
    · exact hspelled token htoken
    · simp [Operator.InapplicableTo]

end Criterion

end Criteria
