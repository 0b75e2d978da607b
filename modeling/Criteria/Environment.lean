import Criteria.Text.Ascii

set_option autoImplicit false

/-! # The environment

The settings of the process around a request: a list of `NAME=value` entries. They choose what is
logged and may be named in a configuration text. -/

namespace Criteria

/-- The entries of an environment, each a name and a value. -/
structure Environment where
  entries : List (String × String) := []

namespace Environment

/-- What follows `name=` in the text of an entry, if the entry starts so. -/
def entryValue? (name : String) (entry : String × String) : Option String :=
  let line := entry.1.toList ++ '=' :: entry.2.toList
  let start := name.toList ++ ['=']
  if start.isPrefixOf line then some (String.ofList (line.drop start.length)) else none

/-- The value of the first entry that starts with the name and an equals sign. -/
def lookup? (env : Environment) (name : String) : Option String :=
  if name.isEmpty || name.contains '\x00' then none
  else env.entries.findSome? (entryValue? name)

/-! ## Logging -/

/-- One of the words, written in any case, or the fallback. -/
def choose (words : List String) (fallback : String) (value : Option String) : String :=
  ((value.bind fun v => words.find? fun word => Text.sameLetters word v)).getD fallback

/-- Debugging is on. -/
def debugging (env : Environment) : Bool :=
  match env.lookup? "SIFT_DEBUG" with
  | some v => ["true", "1", "yes"].any fun word => Text.sameLetters word v
  | none => false

/-- Debugging is on exactly if `SIFT_DEBUG` is set and its value is `true`, `1` or `yes`, in any
case. -/
theorem debugging_iff (env : Environment) :
    env.debugging = true ↔ ∃ v, env.lookup? "SIFT_DEBUG" = some v ∧
      String.ofList (Text.foldCase v) ∈ ["true", "1", "yes"] := by
  unfold debugging
  cases env.lookup? "SIFT_DEBUG" with
  | none => simp
  | some v =>
      have htrue := Text.sameLetters_iff_of_lower "true" v rfl
      have hone := Text.sameLetters_iff_of_lower "1" v rfl
      have hyes := Text.sameLetters_iff_of_lower "yes" v rfl
      simp [htrue, hone, hyes]

/-- The level from which on events are logged. -/
def logLevel (env : Environment) : String :=
  choose ["trace", "debug", "info", "warn", "error"]
    (if env.debugging then "debug" else "warn") (env.lookup? "SIFT_LOG_LEVEL")

/-- The format of the log. -/
def logFormat (env : Environment) : String :=
  choose ["pretty", "compact"] "json" (env.lookup? "SIFT_LOG_FORMAT")

end Environment

end Criteria
