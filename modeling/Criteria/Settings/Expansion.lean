import Criteria.Environment

set_option autoImplicit false

/-! # References to the environment

A configuration text may refer to the environment by `${NAME}`, where the name is one or more
characters other than the closing brace. References are found in the text as it was written, from
left to right. For each of them that is set, every occurrence in the text so far is replaced by its
value; one that is not set stays as it is. -/

namespace Criteria.Settings

/-- What follows the opening of a reference at the start. -/
def afterOpening? : List Char → Option (List Char)
  | '$' :: '\x7b' :: cs => some cs
  | _ => none

/-- The name of the reference with which a text starts. -/
def referenceAt? (cs : List Char) : Option (List Char) := do
  let body ← afterOpening? cs
  let name := body.takeWhile (· != '\x7d')
  if name.isEmpty || name.length == body.length then none else some name

/-- The reference of a name, as it is written. -/
def reference (name : List Char) : List Char := '$' :: '\x7b' :: name ++ ['\x7d']

/-- The names of the references of a text, from left to right; the first `skip` characters belong to
a reference that has been found. -/
def references (skip : Nat) : List Char → List (List Char)
  | [] => []
  | c :: cs =>
      match skip with
      | k + 1 => references k cs
      | 0 => match referenceAt? (c :: cs) with
          | some name => name :: references (name.length + 2) cs
          | none => references 0 cs

/-- The text with every occurrence of `old` replaced, from left to right and without overlap; the
first `skip` characters belong to an occurrence that has been replaced. -/
def replaceAll (old new : List Char) (skip : Nat) : List Char → List Char
  | [] => []
  | c :: cs =>
      match skip with
      | k + 1 => replaceAll old new k cs
      | 0 =>
          if old.isPrefixOf (c :: cs) then new ++ replaceAll old new (old.length - 1) cs
          else c :: replaceAll old new 0 cs

/-- The text with the references of a name replaced, if the name is set. -/
def substitute (lookup : String → Option String) (text name : List Char) : List Char :=
  match lookup (String.ofList name) with
  | some value => replaceAll (reference name) value.toList 0 text
  | none => text

/-- The text with its references replaced. -/
def expand (lookup : String → Option String) (text : List Char) : List Char :=
  (references 0 text).foldl (substitute lookup) text

end Criteria.Settings
