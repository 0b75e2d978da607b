set_option autoImplicit false

/-! # Errors of setting up

Before an endpoint answers requests its configuration is read and the field tables of its entities
are checked. What is wrong with either is an error for whoever runs the endpoint; clients never see
it. -/

namespace Criteria

/-- Why something cannot be set up. -/
inductive SetupError where
  /-- A file cannot be read as text. -/
  | unreadable (path : String)
  /-- A configuration text is no TOML, or not of the form of a configuration. -/
  | malformed
  /-- A limit would refuse every request. -/
  | zeroLimit (setting : String)
  /-- A field table has two fields of one name. -/
  | duplicateField (entity field : String)
  /-- A field table lacks the field that identifies its entity. -/
  | missingId (entity field : String)
deriving DecidableEq

namespace SetupError

/-- The text of an error. -/
def message : SetupError → String
  | .unreadable path => "failed to read file: " ++ path
  | .malformed => "failed to parse TOML"
  | .zeroLimit setting => "configuration error: " ++ setting ++ " must be greater than zero"
  | .duplicateField entity field =>
      "duplicate field `" ++ field ++ "` on entity `" ++ entity ++ "`"
  | .missingId entity field => "entity `" ++ entity ++ "` has no `" ++ field ++ "` field"

/-- The code of an error. -/
def code : SetupError → String
  | .unreadable _ => "sift::schema::io_error"
  | .malformed => "sift::schema::toml_error"
  | .zeroLimit _ => "sift::schema::config_error"
  | .duplicateField .. => "sift::schema::duplicate_field"
  | .missingId .. => "sift::schema::missing_id"

/-- How to mend it, where that is known. -/
def help? : SetupError → Option String
  | .zeroLimit _ => some "check the [filter] section of sift.toml"
  | _ => none

end SetupError

end Criteria
