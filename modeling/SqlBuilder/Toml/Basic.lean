import SqlBuilder.Double.Basic

/-!
# TOML documents

A `Toml` tree remembers how each of its tables came about, because that decides what may be added
to it: a table is headed once, a table made by a dotted key is extended by dotted keys only, an
inline table not at all. `Toml.insert`, `Toml.openTable` and `Toml.openElement` are the three ways
in which a document grows.

Model of the document that `ComposerConfig::from_toml_str` reads, while it grows.
-/

namespace SqlBuilder

/-- How a table came about. -/
inductive Toml.Origin where
  /-- As the parent of a headed table. -/
  | parent
  /-- As the parent of a dotted key. -/
  | dotted
  /-- By its own header, or as the document itself. -/
  | header
  /-- Between braces, in one expression. -/
  | inline
deriving DecidableEq

inductive Toml where
  | string (s : String)
  | integer (n : Int)
  | float (x : Double)
  /-- A numeral that stands for no number: too big, or with other signs among its digits. -/
  | numeral
  | boolean (b : Bool)
  | datetime
  | array (items : List Toml)
  /-- The tables that double-bracketed headers of one name have opened. -/
  | elements (tables : List (List (String × Toml)))
  | table (origin : Toml.Origin) (entries : List (String × Toml))
deriving Inhabited

namespace Toml

/-- Keys with values, in the order in which they were written. -/
abbrev Entries := List (String × Toml)

/-- Changes the value at a key to what `f` makes of the present one. A new key goes to the end. -/
def alter (f : Option Toml → Option Toml) (key : String) : Entries → Option Entries
  | [] => (f none).map fun v => [(key, v)]
  | (k, v) :: rest =>
    if k = key then (f (some v)).map fun v => (k, v) :: rest
    else (alter f key rest).map ((k, v) :: ·)

/-- Applies a change to the last of the opened tables. -/
def changeLast (f : Entries → Option Entries) : List Entries → Option (List Entries)
  | [] => none
  | [t] => (f t).map ([·])
  | t :: ts => (changeLast f ts).map (t :: ·)

/-! ## Dotted keys -/

/-- Adds a value under a dotted key. Parents are made as needed. A parent that is there has to be
a table without a header, and the direct parent one that dotted keys have made. Of the tables
opened under one name the last one is meant; it has a header and is no direct parent. -/
def insert (value : Toml) : List String → Entries → Option Entries
  | [], _ => none
  | [key], entries => alter (fun | none => some value | some _ => none) key entries
  | key :: path, entries =>
    alter (fun
      | none => (insert value path []).map (.table .dotted)
      | some (.table origin inner) =>
        if origin = .dotted ∨ (origin = .parent ∧ 1 < path.length) then
          (insert value path inner).map (.table origin)
        else none
      | some (.elements tables) =>
        if 1 < path.length then (changeLast (insert value path) tables).map .elements else none
      | some _ => none) key entries

/-! ## Headers -/

/-- Applies a change to the table at a header's path. Parents are made as needed; of the tables
opened under one name the last one is meant. -/
def changeAt (f : Entries → Option Entries) : List String → Entries → Option Entries
  | [], entries => f entries
  | key :: path, entries =>
    alter (fun
      | none => (changeAt f path []).map (.table .parent)
      | some (.table origin inner) =>
        if origin = .inline then none else (changeAt f path inner).map (.table origin)
      | some (.elements tables) => (changeLast (changeAt f path) tables).map .elements
      | some _ => none) key entries

/-- Opens the table of a header. It must not have been opened, nor made by dotted keys. -/
def openTable (path : List String) (key : String) : Entries → Option Entries :=
  changeAt (alter (fun
    | none => some (.table .header [])
    | some (.table .parent entries) => some (.table .header entries)
    | some _ => none) key) path

/-- Opens another table of a double-bracketed header. -/
def openElement (path : List String) (key : String) : Entries → Option Entries :=
  changeAt (alter (fun
    | none => some (.elements [[]])
    | some (.elements tables) => some (.elements (tables ++ [[]]))
    | some _ => none) key) path

/-- The kind of a value in messages. -/
def kind : Toml → String
  | string _ => "string"
  | integer _ => "integer"
  | float _ | numeral => "float"
  | boolean _ => "boolean"
  | datetime => "datetime"
  | array _ | elements _ => "array"
  | table _ _ => "table"

end Toml
end SqlBuilder
