import Criteria.Coercion
import Criteria.Payload.Fault

set_option autoImplicit false

/-! # Reports to clients

A request that is refused is answered with a report: a code, a message, what is known about the
place of the fault, suggestions for mending it, and the fault below, if there is one. A report is a
function of the request alone, so sending the request again does not help. -/

namespace Criteria

/-! ## Codes -/

/-- The kinds of refusal. -/
inductive Code where
  | malformedFilter
  | unknownProperty
  | invalidValue
  | unsupportedOperator
  | accessDenied
deriving DecidableEq, Inhabited

namespace Code

/-- The number of a code; the thousands tell faults of the filter from faults of access. -/
def number : Code → Nat
  | .malformedFilter => 1001
  | .unknownProperty => 1002
  | .invalidValue => 1003
  | .unsupportedOperator => 1004
  | .accessDenied => 3001

/-- The code as clients see it. -/
def label (c : Code) : String := "P" ++ String.ofList (Number.natDigits c.number)

/-- The HTTP status of the answer. -/
def status : Code → Nat
  | .accessDenied => 403
  | _ => 400

/-- The request is at fault, as it is for every code. -/
def isClientError : Code → Bool
  | .malformedFilter | .unknownProperty | .invalidValue | .unsupportedOperator | .accessDenied =>
      true

end Code

/-! ## Parts of a report -/

/-- A way to mend the request, with an example if there is one. -/
structure Suggestion where
  text : String
  code : Option String := none
deriving DecidableEq

/-- What a report says about the place of the fault and how to mend it. -/
structure Context where
  entity : Option String := none
  property : Option String := none
  operator : Option String := none
  /-- The position of the criterion in the request. -/
  index : Option Nat := none
  suggestions : List Suggestion := []
  help : Option String := none
deriving DecidableEq

/-- The fault below a report. -/
inductive Underlying where
  /-- The payload cannot be read. -/
  | payload (fault : Payload.Fault)
  /-- A literal is no value of its field. -/
  | coercion (error : CoercionError)
  /-- Another refusal. -/
  | refusal (code : Code) (message : String)
deriving DecidableEq

/-- The text of a fault. -/
def Underlying.text : Underlying → String
  | .payload fault => fault.message
  | .coercion error => error.message
  | .refusal code message => "[" ++ code.label ++ "] " ++ message

/-- The answer to a request that is refused. -/
structure Report where
  code : Code
  message : String
  context : Context := {}
  source : Option Underlying := none
deriving DecidableEq

namespace Report

/-! ## Adding to a report -/

/-- A further suggestion. -/
def suggest (r : Report) (text : String) (code : Option String := none) : Report :=
  { r with context := { r.context with suggestions := r.context.suggestions ++ [⟨text, code⟩] } }

/-- The report with a help text. -/
def withHelp (r : Report) (help : String) : Report :=
  { r with context := { r.context with help := some help } }

/-- The report with the name of the entity. -/
def withEntity (r : Report) (entity : String) : Report :=
  { r with context := { r.context with entity := some entity } }

/-- The report with the name of the property. -/
def withProperty (r : Report) (property : String) : Report :=
  { r with context := { r.context with property := some property } }

/-- The report with the token of the operator. -/
def withOperator (r : Report) (operator : String) : Report :=
  { r with context := { r.context with operator := some operator } }

/-- The report with the position of the criterion. -/
def atIndex (r : Report) (index : Nat) : Report :=
  { r with context := { r.context with index := some index } }

/-- The report with the fault below it. -/
def withSource (r : Report) (source : Underlying) : Report := { r with source := some source }

/-! ## Reports of each kind -/

/-- The payload is no list of criteria, or beyond a limit. -/
def malformedFilter (detail : String) : Report :=
  suggest ⟨.malformedFilter, "Malformed filter: " ++ detail, {}, none⟩
    "Send a JSON array of criteria objects"
    (some "[\x7b\"Property\":\"Status\",\"Operator\":\"equals\",\"Value\":\"Active\"\x7d]")

/-- The entity has no such property; one that differs in case alone is suggested. -/
def unknownProperty (entity property : String) (available : List String) : Report :=
  let plain : Report :=
    ⟨.unknownProperty, "Property `" ++ property ++ "` does not exist on " ++ entity,
      { entity := some entity, property := some property }, none⟩
  let suggested := match available.find? fun name => Text.sameLetters name property with
    | some close =>
        plain.suggest ("Property names are case-sensitive; did you mean `" ++ close ++ "`?")
    | none => plain
  suggested.withHelp ("Available properties: " ++ ", ".intercalate available)

/-- The constant is no value of the property. -/
def invalidValue (entity property detail : String) : Report :=
  ⟨.invalidValue, "Invalid value for " ++ entity ++ "." ++ property ++ ": " ++ detail,
    { entity := some entity, property := some property }, none⟩

/-- The operator asks for an order that the kind of the property does not have. -/
def operatorNotApplicable (entity property operator kind : String) : Report :=
  suggest ⟨.invalidValue,
      "Operator `" ++ operator ++ "` cannot be applied to " ++ kind ++ " property " ++ entity
        ++ "." ++ property,
      { entity := some entity, property := some property, operator := some operator }, none⟩
    "Use `equals` or `notequals` for this property"

/-- There is no such operator. -/
def unsupportedOperator (token : String) : Report :=
  ⟨.unsupportedOperator, "Operator `" ++ token ++ "` is not supported",
    { operator := some token,
      help := some ("Supported operators: equals (=), notequals (!=), greaterthan (>), "
        ++ "greaterthanorequal (>=), lessthan (<), lessthanorequal (<=)") }, none⟩

/-- The principal lacks an entitlement. -/
def accessDenied (entity entitlement : String) : Report :=
  ⟨.accessDenied, "Missing " ++ entitlement ++ " entitlement on " ++ entity,
    { entity := some entity }, none⟩

/-! ## Texts -/

/-- The report in one line. -/
def display (r : Report) : String := "[" ++ r.code.label ++ "] " ++ r.message

/-- The lines of a suggestion. -/
def suggestionLines (s : Suggestion) : String :=
  "\n  suggestion: " ++ s.text ++ (s.code.map fun code => "\n    " ++ code).getD ""

/-- The report with its suggestions and help. -/
def displayFull (r : Report) : String :=
  r.display ++ String.join (r.context.suggestions.map suggestionLines)
    ++ (r.context.help.map fun help => "\n  help: " ++ help).getD ""

/-- Sending the request again may help, which it never does. -/
def isRetryable (_ : Report) : Bool := false

end Report

end Criteria
