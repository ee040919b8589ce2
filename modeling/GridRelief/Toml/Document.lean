import GridRelief.Json.Value

/-!
# The tables of a TOML document

A document is built line by line: a header opens a table or appends one to an array of tables, and
a key with a value enters the open table. A table is defined once: by its header, by the dotted
keys of one table, or by an inline value; a table that only stands above another one may still be
opened.

## Main definitions

* `Toml.Node`: a value or a table under construction.
* `Toml.openTable?`, `Toml.appendTable?`, `Toml.insert?`: what headers and keys do.
* `Toml.toJson`: the finished tables as a JSON value.
-/

namespace GridRelief.Toml

/-- How a table came to be. -/
inductive Origin where
  /-- It stands above a table that was opened. -/
  | above
  /-- It was opened by its header. -/
  | header
  /-- It was made by a dotted key. -/
  | dotted
  deriving DecidableEq, Repr

/-- A value or a table under construction. -/
inductive Node where
  /-- A value, which is closed. -/
  | value (value : Json Float)
  /-- A table. -/
  | table (origin : Origin) (entries : List (String × Node))
  /-- An array of tables, the last one being open. -/
  | tables (elements : List (List (String × Node)))

/-- The entries of a table. -/
abbrev Entries : Type := List (String × Node)

/-- The entries with the node of a key replaced, or added behind the others. -/
def put (entries : Entries) (key : String) (node : Node) : Entries :=
  if entries.any (·.1 == key) then
    entries.map fun entry => if entry.1 == key then (key, node) else entry
  else entries ++ [(key, node)]

/-- Change the last element of a list. -/
def changeLast? {α : Type} (change : α → Option α) : List α → Option (List α)
  | [] => none
  | [last] => (change last).map ([·])
  | first :: rest => (changeLast? change rest).map (first :: ·)

/-- Change the table at the end of a path, tables above it being made where they are missing. -/
def changeAt? (change : Entries → String → Option Entries) : List String → Entries →
    Option Entries
  | [], _ => none
  | [key], entries => change entries key
  | key :: path, entries =>
    match entries.lookup key with
    | none => (changeAt? change path []).map fun inner => put entries key (.table .above inner)
    | some (.table origin inner) =>
      (changeAt? change path inner).map fun inner => put entries key (.table origin inner)
    | some (.tables elements) =>
      (changeLast? (changeAt? change path) elements).map fun elements =>
        put entries key (.tables elements)
    | some (.value _) => none

/-- Open the table of a header. -/
def openTable? : List String → Entries → Option Entries :=
  changeAt? fun entries key =>
    match entries.lookup key with
    | none => some (put entries key (.table .header []))
    | some (.table .above inner) => some (put entries key (.table .header inner))
    | some _ => none

/-- Append a table to the array of a header. -/
def appendTable? : List String → Entries → Option Entries :=
  changeAt? fun entries key =>
    match entries.lookup key with
    | none => some (put entries key (.tables [[]]))
    | some (.tables elements) => some (put entries key (.tables (elements ++ [[]])))
    | some _ => none

/-- Enter a value under a dotted key. The tables on the way are made by dotted keys of the same
table; the innermost must be, and an outer one may also stand above an opened table. -/
def insert? (value : Json Float) : List String → Entries → Option Entries
  | [], _ => none
  | [key], entries =>
    if (entries.lookup key).isSome then none else some (put entries key (.value value))
  | key :: path, entries =>
    match entries.lookup key with
    | none => (insert? value path []).map fun inner => put entries key (.table .dotted inner)
    | some (.table .dotted inner) =>
      (insert? value path inner).map fun inner => put entries key (.table .dotted inner)
    | some (.table .above inner) =>
      if path.length ≤ 1 then none
      else (insert? value path inner).map fun inner => put entries key (.table .above inner)
    | some _ => none

/-- Enter a value under a dotted key of the table at a path. -/
def insertAt? (value : Json Float) (key : List String) : List String → Entries → Option Entries
  | [], entries => insert? value key entries
  | first :: path, entries =>
    match entries.lookup first with
    | some (.table origin inner) =>
      (insertAt? value key path inner).map fun inner => put entries first (.table origin inner)
    | some (.tables elements) =>
      (changeLast? (insertAt? value key path) elements).map fun elements =>
        put entries first (.tables elements)
    | _ => none

mutual

/-- A node as a JSON value. -/
def Node.toJson : Node → Json Float
  | .value value => value
  | .table _ entries => .obj (entriesToJson entries)
  | .tables elements => .arr (tablesToJson elements)

/-- The entries of a table as the fields of an object. -/
def entriesToJson : List (String × Node) → List (String × Json Float)
  | [] => []
  | (key, node) :: rest => (key, node.toJson) :: entriesToJson rest

/-- Tables as objects. -/
def tablesToJson : List (List (String × Node)) → List (Json Float)
  | [] => []
  | entries :: rest => .obj (entriesToJson entries) :: tablesToJson rest

end

/-- The finished tables as a JSON value. -/
def toJson (entries : Entries) : Json Float := .obj (entriesToJson entries)

end GridRelief.Toml
