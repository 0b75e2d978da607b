import Criteria.Environment
import Criteria.Filter
import Criteria.Report
import Criteria.Schema

set_option autoImplicit false

/-! # Compiling criteria

Each criterion becomes a comparison with a value of the kind of its property. The comparisons are
joined from left to right, and each is compared with the criterion *immediately* before it: on the
same property it is an alternative to all that came before, on another it is a further condition.
So `S=a, S=b, C=x` means `(S=a OR S=b) AND C=x`, and `C=x, S=a, S=b` means `(C=x AND S=a) OR S=b`.
The first criterion that cannot be compiled ends the request. -/

namespace Criteria

/-! ## One criterion -/

/-- The field that a criterion names. -/
def Schema.resolve (s : Schema) (property : String) : Except Report Field :=
  match s.field? property with
  | some field => .ok field
  | none => .error (.unknownProperty s.name property s.fieldNames)

/-- The constant of a criterion as a value of its field. -/
def Criterion.constant (c : Criterion) (s : Schema) (field : Field) : Except Report Value :=
  match c.value.coerce field with
  | .ok v => .ok v
  | .error e =>
      .error (((Report.invalidValue s.name field.name e.message).withOperator c.operator).withSource
        (.coercion e))

/-- The operator that a token names. -/
def Operator.resolve (token : String) : Except Report Operator :=
  match ofToken? token with
  | some op => .ok op
  | none => .error (.unsupportedOperator token)

/-- The operator of a criterion, if it makes sense for its field. -/
def Criterion.comparison (c : Criterion) (s : Schema) (field : Field) : Except Report Operator := do
  let op ← Operator.resolve c.operator
  if op.isOrdering && !field.kind.isOrderable then
    .error (.operatorNotApplicable s.name field.name c.operator field.kind.name)
  else .ok op

/-- A criterion as a filter. The property is looked up first, then the constant is coerced, then the
operator is read. -/
def Criterion.filter (c : Criterion) (s : Schema) : Except Report Filter := do
  let field ← s.resolve c.property
  let value ← c.constant s field
  let op ← c.comparison s field
  return .compare op field.name value

/-! ## All criteria -/

/-- The filter of further criteria, joined to the filter of those before them, of which the last was
on the property `previous`. -/
def compileFrom (env : Environment) (s : Schema) :
    (index : Nat) → (previous : Option String) → Filter → List Criterion → Traced Report Filter
  | _, _, combined, [] => pure combined
  | index, previous, combined, c :: cs => do
      let one ← Traced.ofExcept ((c.filter s).mapError fun r => r.atIndex index)
      let combined := match previous with
        | none => one
        | some p => if p = c.property then combined.orElse one else combined.andThen one
      Traced.emitIf env.debugging (.criterionCompiled s.name index c.property c.operator)
      compileFrom env s (index + 1) (some c.property) combined cs

/-- The filter of a list of criteria. -/
def compile (env : Environment) (s : Schema) (criteria : List Criterion) : Traced Report Filter :=
  compileFrom env s 0 none .always criteria

end Criteria
