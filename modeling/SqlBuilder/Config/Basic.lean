import SqlBuilder.Dialect
import SqlBuilder.Json.Basic
import SqlBuilder.JoinGraph.Basic
import SqlBuilder.ShapeError

/-!
# Configuration

A `Config` fixes the dialect and the keys that a join graph is seeded from. Both have defaults.
This module has its data and its JSON form; the two notations are read in `Config.Json` and
`Config.Toml`.

Model of `ComposerConfig`, and of `ForeignKey` and `DialectKind` as they are written.
-/

namespace SqlBuilder

/-! ## Dialects by name -/

/-- The names that a dialect is given by. -/
def Dialect.names : List String := Kind.all.map Kind.name

/-- The dialect of a name in a document. -/
def Dialect.ofName (s : String) : Except ShapeError Kind :=
  match Kind.ofName? s with
  | some d => return d
  | none => throw (.unknownVariant s names)

/-! ## Foreign keys -/

namespace ForeignKey

/-- The fields of a foreign key, in the order in which they are declared. -/
def fieldNames : List String := ["from_table", "from_column", "to_table", "to_column"]

def toJson (k : ForeignKey) : Json :=
  .object <| fieldNames.zip <|
    [k.fromTable, k.fromColumn, k.toTable, k.toColumn].map .string

/-- The key of fields by name. The first field that is missing, in the order of declaration, is
reported. -/
def ofFields (fields : List (String × String)) : Except ShapeError ForeignKey := do
  let get (name : String) : Except ShapeError String :=
    match fields.lookup name with
    | some s => return s
    | none => throw (.missingField name)
  return ⟨← get "from_table", ← get "from_column", ← get "to_table", ← get "to_column"⟩

end ForeignKey

/-! ## Configurations -/

structure Config where
  dialect : Dialect.Kind := .standard
  foreignKeys : List ForeignKey := []
deriving DecidableEq

namespace Config

/-- The name of the record in messages. -/
def recordName : String := "ComposerConfig"

/-- The graph of the configured keys. -/
def joinGraph (c : Config) : JoinGraph := .ofForeignKeys c.foreignKeys

def toJson (c : Config) : Json :=
  .object [("dialect", .string c.dialect.name),
    ("foreign_keys", .array (c.foreignKeys.map ForeignKey.toJson))]

end Config
end SqlBuilder
