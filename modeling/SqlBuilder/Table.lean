import SqlBuilder.Node.Basic

/-!
# Tables

Tables are compared by their `Key`: name, alias, and the identity of the nested query behind a
derived table. Equality of keys is what a join graph looks tables up by.

Model of `Table`, of its equality, and of what `define_table` declares.
-/

namespace SqlBuilder

namespace Table

/-- A table of the database. -/
def ofName (name : String) : Table := ⟨name, none, .base⟩

/-- The rows of a nested query, under an alias that is also its name. -/
def derived (query : Subquery) (label : String) : Table := ⟨label, some label, .derived query⟩

/-- The same table under another alias. The empty text is an alias too. -/
def aliased (t : Table) (label : String) : Table := ⟨t.name, some label, t.source⟩

/-- The name by which the rest of a statement refers to the table. -/
def exposedName (t : Table) : String := t.alias?.getD t.name

/-- The identity of the nested query behind the table, if there is one. -/
def queryId? (t : Table) : Option Nat :=
  match t.source with
  | .base => none
  | .derived query => some query.id

def isDerived (t : Table) : Bool := t.queryId?.isSome

/-! ## Comparison -/

/-- What makes two tables the same. -/
structure Key where
  name : String
  alias? : Option String
  queryId? : Option Nat
deriving DecidableEq

def key (t : Table) : Key := ⟨t.name, t.alias?, t.queryId?⟩

instance : BEq Table := ⟨fun a b => decide (a.key = b.key)⟩

theorem beq_iff {a b : Table} : (a == b) = true ↔ a.key = b.key := by
  simp [BEq.beq]

instance : EquivBEq Table where
  rfl := beq_iff.2 rfl
  symm h := beq_iff.2 (beq_iff.1 h).symm
  trans h k := beq_iff.2 ((beq_iff.1 h).trans (beq_iff.1 k))

/-! ## Columns -/

/-- A column of the table that admits literals by its type. -/
def column (t : Table) (name : String) (type : ScalarType) : Column := ⟨name, some t, type, none⟩

/-- All columns of the table. -/
def allColumns (t : Table) : Column := t.column "*" .any

end Table

/-- A table with typed columns, declared once and bound under any alias. -/
structure TableDeclaration where
  name : String
  columns : List (String × DeclaredType)

namespace TableDeclaration

/-- The declared table under its own name. -/
def table (d : TableDeclaration) : Table := .ofName d.name

/-- The declared columns, bound to the table or an aliased copy of it. -/
def columnsOf (d : TableDeclaration) (t : Table) : List Column :=
  d.columns.map fun (name, type) => t.column name type.scalar

end TableDeclaration
end SqlBuilder
