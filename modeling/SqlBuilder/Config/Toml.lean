import SqlBuilder.Config.Basic
import SqlBuilder.Toml.Reader

/-!
# Configuration in TOML

The whole document is read first. Its tables are then taken in the order of their keys, so that of
two ill-shaped fields the one with the lesser key is reported.

A number is looked at when its turn comes: one that has no value does no harm where no value is
needed. But an ill-shaped document counts as malformed when any of its numbers is out of range.

Model of `ComposerConfig::from_toml_str`.
-/

namespace SqlBuilder

namespace Toml

/-- Floats in messages: never an exponent, always a fraction. -/
def floatText (x : Double) : String :=
  if x.isFinite then Double.Layout.text ⟨.up, none, true⟩ x else x.plainText

/-- What a value is, unless it is a numeral that stands for no number. -/
def found : Toml → Except ReadError Found
  | string s => return .string s
  | integer n => return .integer n
  | float x => return .float (floatText x)
  | numeral => throw .malformed
  | boolean b => return .bool b
  | array _ | elements _ => return .sequence
  | datetime | table _ _ => return .map

/-- The error for a value of the wrong type. -/
def refuse {α : Type} (v : Toml) (expected : Expected) : Except ReadError α := do
  throw (.shape (.invalidType (← v.found) expected))

def asString : Toml → Except ReadError String
  | string s => return s
  | v => v.refuse .string

/-- The items of a value, if it is an array of either kind. -/
def items? : Toml → Option (List Toml)
  | array items => some items
  | elements tables => some (tables.map (.table .header))
  | _ => none

/-- Entries in the order of their keys. -/
def sorted (entries : Entries) : Entries := entries.mergeSort fun a b => a.1 ≤ b.1

mutual

/-- Whether everything in a value that is neither an array nor a table has a property. -/
def allLeaves (p : Toml → Bool) : Toml → Bool
  | array items => allLeavesOfItems p items
  | elements tables => allLeavesOfTables p tables
  | table _ entries => allLeavesOfEntries p entries
  | v => p v

def allLeavesOfItems (p : Toml → Bool) : List Toml → Bool
  | [] => true
  | v :: vs => v.allLeaves p && allLeavesOfItems p vs

def allLeavesOfTables (p : Toml → Bool) : List (List (String × Toml)) → Bool
  | [] => true
  | t :: ts => allLeavesOfEntries p t && allLeavesOfTables p ts

def allLeavesOfEntries (p : Toml → Bool) : List (String × Toml) → Bool
  | [] => true
  | (_, v) :: rest => v.allLeaves p && allLeavesOfEntries p rest

end

/-- Whether a value is anything but a numeral that stands for no number. -/
def hasValue : Toml → Bool
  | numeral => false
  | _ => true

/-- Whether a value is no integer beyond 64 signed bits either. -/
def inRange : Toml → Bool
  | integer n => -(Nat.pow 2 63 : Int) ≤ n && n < Nat.pow 2 63
  | v => v.hasValue

/-- Passes a value, of which only the numbers are looked at. -/
def skip (v : Toml) : Except ReadError Unit :=
  if v.allLeaves hasValue then pure () else throw .malformed

/-- The contents of a variant that has none: an empty table or an empty array. -/
def asUnit : Toml → Except ShapeError Unit
  | table _ entries => if entries.isEmpty then pure () else throw (.notEmpty "table")
  | array items => if items.isEmpty then pure () else throw (.notEmpty "array")
  | elements _ => throw (.notEmpty "array")
  | v => throw (.notTable v.kind)

end Toml

/-- A dialect by its name, or as a table with its name as the only key and nothing in it. -/
def Dialect.ofToml : Toml → Except ShapeError Kind
  | .string s => Dialect.ofName s
  | .table _ [(name, v)] => do
    let d ← Dialect.ofName name
    v.asUnit
    return d
  | .table _ entries => throw (.notOneElement entries.length)
  | _ => throw .notStringOrTable

namespace ForeignKey

/-- The key under which a date counts as a table. -/
def dateField : String := "$__toml_private_datetime"

/-- Reads the fields of a table that are given in the order of their keys. -/
def fieldsOfToml : Toml.Entries → Except ReadError (List (String × String))
  | [] => return []
  | (name, v) :: rest => do
    unless fieldNames.contains name do throw (.shape (.unknownField name fieldNames))
    let s ← v.asString
    return (name, s) :: (← fieldsOfToml rest)

/-- A foreign key, as a table or as an array that begins with its fields in order. -/
def ofToml (v : Toml) : Except ReadError ForeignKey := do
  match v with
  | .table _ entries => (ofFields (← fieldsOfToml (Toml.sorted entries))).mapError .shape
  | .datetime => throw (.shape (.unknownField dateField fieldNames))
  | v =>
    match v.items? with
    | some items =>
      let values ← (items.take fieldNames.length).mapM Toml.asString
      if values.length < fieldNames.length then
        throw (.shape (.invalidLength values.length "ForeignKey" fieldNames.length))
      (ofFields (fieldNames.zip values)).mapError .shape
    | none => v.refuse (.record "ForeignKey")

end ForeignKey

namespace Config

/-- Reads fields that are given in the order of their keys. -/
def addToml (c : Config) : Toml.Entries → Except ReadError Config
  | [] => return c
  | (name, v) :: rest => do
    match name with
    | "dialect" => addToml ⟨← (Dialect.ofToml v).mapError .shape, c.foreignKeys⟩ rest
    | "foreign_keys" =>
      match v.items? with
      | some items => addToml ⟨c.dialect, ← items.mapM ForeignKey.ofToml⟩ rest
      | none => v.refuse .sequence
    | _ =>
      v.skip
      addToml c rest

/-- The configuration that a TOML text describes. -/
def ofTomlText (text : String) : Except ReadError Config :=
  match Toml.ofText? text with
  | none => throw .malformed
  | some entries =>
    match addToml {} (Toml.sorted entries) with
    | .ok c => return c
    | .error e =>
      if Toml.allLeavesOfEntries Toml.inRange entries then throw e else throw .malformed

end Config
end SqlBuilder
