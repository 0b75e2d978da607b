import Criteria.Settings
import Criteria.Settings.Expansion
import Criteria.Toml.Reader

set_option autoImplicit false

/-! # Reading settings

Settings are read from a TOML text after its references to the environment are expanded. A group of
settings is a table with no keys but the known ones, or an array of the settings in order, of which
further items do not count. Settings that are not given have their defaults; in an array a setting
that has no default of its own must be given. -/

namespace Criteria.Settings

open Toml

/-! ## Groups of settings -/

/-- The table has no keys but these. -/
def knows (keys : List String) (entries : Entries) : Bool :=
  entries.all fun entry => keys.contains entry.1

/-- The items of a group with these keys, in order, those not given being `none`. An array that
leaves some out is a group only if `defaults` holds. -/
def group? (defaults : Bool) (keys : List String) (item : Item) : Option (List (Option Item)) :=
  match item with
  | .table _ entries =>
      if knows keys entries then some (keys.map (Entries.get? entries ·)) else none
  | .array items => ofItems items
  | .tables each => ofItems (each.map (.table .header))
  | _ => none
where
  /-- The items of an array, each in the place of a key. -/
  ofItems (items : List Item) : Option (List (Option Item)) :=
    if defaults || keys.length ≤ items.length then
      some ((List.range keys.length).map fun i => items[i]?)
    else none

/-- A setting that need not be given. -/
def optional? {α : Type} (read : Item → Option α) : Option Item → Option (Option α)
  | none => some none
  | some item => (read item).map some

/-- A natural number. -/
def natural? : Item → Option Nat
  | .integer i => if 0 ≤ i.toInt then some i.toInt.toNat else none
  | _ => none

/-- A truth value. -/
def bool? : Item → Option Bool
  | .bool b => some b
  | _ => none

/-! ## The groups -/

/-- The keys of limits. -/
def limitKeys : List String := ["max_criteria", "max_payload_bytes"]

/-- The keys of debugging. -/
def debugKeys : List String := ["log_filters"]

/-- What an environment says about limits. -/
def limitOverride? (item : Item) : Option LimitOverride := do
  match ← group? false limitKeys item with
  | [criteria, bytes] => return ⟨← optional? natural? criteria, ← optional? natural? bytes⟩
  | _ => none

/-- What an environment says about debugging. -/
def debugOverride? (item : Item) : Option DebugOverride := do
  match ← group? false debugKeys item with
  | [log] => return ⟨← optional? bool? log⟩
  | _ => none

/-- What an environment overrides. -/
def override? (item : Item) : Option Override := do
  match ← group? false ["filter", "debug"] item with
  | [filter, debug] => return ⟨← optional? limitOverride? filter, ← optional? debugOverride? debug⟩
  | _ => none

/-- The environments by name, which only a table can give. -/
def environments? : Item → Option (List (String × Override))
  | .table _ entries => entries.mapM fun (name, item) => (override? item).map fun o => (name, o)
  | _ => none

/-- The limits of all requests. -/
def limits? (item : Item) : Option Limits := do
  match ← group? true limitKeys item with
  | [criteria, bytes] =>
      let criteria ← optional? natural? criteria
      let bytes ← optional? natural? bytes
      return Limits.override {} ⟨criteria, bytes⟩
  | _ => none

/-- Whether all requests are logged. -/
def logging? (item : Item) : Option Bool := do
  match ← group? true debugKeys item with
  | [log] => return (← optional? bool? log).getD false
  | _ => none

/-- The settings of a document. -/
def ofDocument? (document : Entries) : Option Settings := do
  if knows ["filter", "debug", "environments"] document then
    let limits ← optional? limits? (document.get? "filter")
    let log ← optional? logging? (document.get? "debug")
    let environments ← optional? environments? (document.get? "environments")
    return ⟨limits.getD {}, log.getD false, environments.getD []⟩
  else none

/-! ## Whole texts -/

/-- The settings of a text; the limits for all requests have to let some through. -/
def parse (env : Environment) (text : String) : Except SetupError Settings := do
  match (Toml.parse? (expand env.lookup? text.toList)).bind ofDocument? with
  | none => .error .malformed
  | some s =>
      s.check
      return s

/-- The settings of a file with the given content, which is `none` if the file cannot be read as
text. -/
def parseFile (env : Environment) (path : String) (content : Option String) :
    Except SetupError Settings :=
  match content with
  | some text => parse env text
  | none => .error (.unreadable path)

end Criteria.Settings
