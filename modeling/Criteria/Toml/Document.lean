set_option autoImplicit false

/-! # TOML documents

A document is a table of keyed items. How a table came to be decides what may still be added to it:
a table in braces is closed, one with a header of its own is not defined twice, one that only
appears on the way to another may still get a header, and one made by a dotted key grows by dotted
keys alone. `ofStatements?` builds a document from the lines of a text and refuses the lines that
define something twice. -/

namespace Criteria.Toml

/-- How a table came to be. -/
inductive TableKind where
  /-- Written in braces. -/
  | braces
  /-- Named by a header. -/
  | header
  /-- On the way to a table with a header. -/
  | implied
  /-- On the way to the last part of a dotted key. -/
  | dotted
deriving DecidableEq

/-- What stands at a key. -/
inductive Item where
  | text (s : String)
  | integer (i : Int64)
  /-- A number with a fraction or an exponent, an infinity or a not-a-number. -/
  | float
  | bool (b : Bool)
  /-- A date, a time or both. -/
  | moment
  | array (items : List Item)
  | table (kind : TableKind) (entries : List (String × Item))
  /-- Tables with a header in double brackets, in order. -/
  | tables (each : List (List (String × Item)))
deriving Inhabited

/-- The keys of a table with their items. -/
abbrev Entries := List (String × Item)

/-- The item at a key. -/
def Entries.get? (entries : Entries) (key : String) : Option Item := entries.lookup key

/-- The table with an item at a key, in the place of the item that was there. -/
def Entries.put (key : String) (item : Item) : Entries → Entries
  | [] => [(key, item)]
  | (k, i) :: rest => if k = key then (k, item) :: rest else (k, i) :: put key item rest

/-- The last table of a list, changed. -/
def changeLast? (f : Entries → Option Entries) : List Entries → Option (List Entries)
  | [] => none
  | [t] => (f t).map ([·])
  | t :: ts => (changeLast? f ts).map (t :: ·)

/-! ## Dotted keys -/

/-- The table with an item at a dotted key. Only the table that the key starts from (`free`) and
tables made by dotted keys take the item itself. -/
def insertAt? (free : Bool) (path : List String) (key : String) (item : Item)
    (entries : Entries) : Option Entries :=
  match path with
  | [] =>
      if free && (entries.get? key).isNone then some (entries.put key item) else none
  | step :: path =>
      match entries.get? step with
      | none => (insertAt? true path key item []).map fun t => entries.put step (.table .dotted t)
      | some (.table .dotted t) =>
          (insertAt? true path key item t).map fun t => entries.put step (.table .dotted t)
      | some (.table .implied t) =>
          (insertAt? false path key item t).map fun t => entries.put step (.table .implied t)
      | some (.tables ts) =>
          (changeLast? (insertAt? false path key item) ts).map fun ts =>
            entries.put step (.tables ts)
      | some _ => none

/-- A dotted key and its item. -/
structure Pair where
  path : List String
  key : String
  item : Item

/-- The table with the items of all pairs, in order. -/
def insertAll? (entries : Entries) (pairs : List Pair) : Option Entries :=
  pairs.foldlM (fun t p => insertAt? true p.path p.key p.item t) entries

/-! ## Headers -/

/-- The table with the item at the end of a path changed, where the path leads through tables of any
kind but those in braces and through the last of the tables of a list. -/
def changeAt? (f : Option Item → Option Item) (path : List String) (last : String)
    (entries : Entries) : Option Entries :=
  match path with
  | [] => (f (entries.get? last)).map fun item => entries.put last item
  | step :: path =>
      match entries.get? step with
      | none => (changeAt? f path last []).map fun t => entries.put step (.table .implied t)
      | some (.table .braces _) => none
      | some (.table kind t) =>
          (changeAt? f path last t).map fun t => entries.put step (.table kind t)
      | some (.tables ts) =>
          (changeLast? (changeAt? f path last) ts).map fun ts => entries.put step (.tables ts)
      | some _ => none

/-- A header and the pairs under it. -/
structure Section where
  /-- The header stands in double brackets. -/
  listed : Bool
  path : List String
  key : String
  pairs : List Pair

/-- The item of a section, given what is at its place before. -/
def Section.item? (s : Section) (before : Option Item) : Option Item :=
  if s.listed then
    match before with
    | none => (insertAll? [] s.pairs).map fun t => .tables [t]
    | some (.tables ts) => (insertAll? [] s.pairs).map fun t => .tables (ts ++ [t])
    | some _ => none
  else
    match before with
    | none => (insertAll? [] s.pairs).map (.table .header)
    | some (.table .implied t) => (insertAll? t s.pairs).map (.table .header)
    | some _ => none

/-! ## Whole documents -/

/-- A line of a text that says something. -/
inductive Statement where
  | pair (pair : Pair)
  | header (listed : Bool) (path : List String) (key : String)

/-- The pairs before the first header, and the sections. -/
def sections : List Statement → List Pair × List Section
  | [] => ([], [])
  | .pair p :: rest =>
      let (pairs, more) := sections rest
      (p :: pairs, more)
  | .header listed path key :: rest =>
      let (pairs, more) := sections rest
      ([], ⟨listed, path, key, pairs⟩ :: more)

/-- The document of the lines of a text. -/
def ofStatements? (statements : List Statement) : Option Entries := do
  let (pairs, sections) := sections statements
  sections.foldlM (fun t s => changeAt? s.item? s.path s.key t) (← insertAll? [] pairs)

end Criteria.Toml
