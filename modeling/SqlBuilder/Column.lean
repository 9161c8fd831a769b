import SqlBuilder.Context
import SqlBuilder.Table

/-!
# Columns

A column is written under its table's reference name. A column without a table is written as its
name alone, which also serves for texts such as `1` or `*`.

Model of `Column` and of how its `Render::render` writes it.
-/

namespace SqlBuilder.Column

/-- A column without a table. -/
def ofName (name : String) (type : ScalarType) : Column := ⟨name, none, type, none⟩

/-- A text that is written as it is. -/
def verbatim (text : String) : Column := ofName text .any

def aliased (c : Column) (label : String) : Column := ⟨c.name, c.table?, c.type, some label⟩

/-- The name, after the table's reference name and a point if there is a table. -/
def qualifiedName (c : Column) : String :=
  match c.table? with
  | some table => table.exposedName ++ "." ++ c.name
  | none => c.name

/-- The text of a column in a context. -/
def text (c : Column) (ctx : Context) : String :=
  match c.alias?, ctx.aliasUse with
  | some label, .introduced => c.qualifiedName ++ " AS " ++ label
  | some label, .used => label
  | _, _ => c.qualifiedName

/-- Columns are the same when name, table, type and alias are. -/
instance : BEq Column :=
  ⟨fun a b => a.name == b.name && a.table? == b.table? && a.type == b.type && a.alias? == b.alias?⟩

end SqlBuilder.Column
