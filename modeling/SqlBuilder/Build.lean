import SqlBuilder.Column
import SqlBuilder.Stage

/-!
# Building nodes

What can go wrong while a statement is built (`BuildError`), and the `Build` monad, which hands
out identities for array literals and nested queries. Rendering never fails.

Model of the assertions that stop the building of a node (`Column::check_param`, `collect_items`,
`count_distinct`, `owner`) and of the identities that tell nodes apart: the counter of
`ArrayParam::new`, and the pointers that `SubQuery::same_as` compares.
-/

namespace SqlBuilder

/-- Why a node could not be built. -/
inductive BuildError where
  /-- The literal does not fit the column's type. -/
  | mismatch (column : Column) (value : Value)
  /-- A select list without items. -/
  | emptySelect
  /-- A count of distinct values without arguments. -/
  | emptyCount
  /-- A link between tables through a column that has no table. -/
  | unbound (column : Column)
  /-- The stage does not have the step. -/
  | unavailable (stage : Stage) (step : StepKind)

def BuildError.message : BuildError → String
  | mismatch column value =>
    "cannot compare " ++ column.type.name ++ " column " ++ column.qualifiedName ++ " with " ++
      value.kind ++ " literal " ++ value.display
  | emptySelect => "select list must not be empty"
  | emptyCount => "COUNT(DISTINCT ...) needs at least one argument"
  | unbound column => "join graph links need table-bound columns, got " ++ column.name
  | unavailable stage step => stage.name ++ "." ++ step.name

/-- A computation in two parts succeeds when both parts do. -/
theorem bind_eq_ok_iff {ε α β : Type} {e : Except ε α} {f : α → Except ε β} {r : β} :
    e >>= f = .ok r ↔ ∃ v, e = .ok v ∧ f v = .ok r := by
  cases e with
  | error err => simp [bind, Except.bind]
  | ok v => simp [bind, Except.bind]

/-- A mapped computation succeeds when the computation does. -/
theorem map_eq_ok_iff {ε α β : Type} {e : Except ε α} {f : α → β} {r : β} :
    e.map f = .ok r ↔ ∃ v, e = .ok v ∧ f v = r := by
  cases e with
  | error err => simp [Except.map]
  | ok v => simp [Except.map]

/-- Building with a supply of identities: the state is the next one. -/
abbrev Build := StateT Nat (Except BuildError)

/-- An identity that was not handed out before. -/
def Build.fresh : Build Nat := modifyGet fun next => (next, next + 1)

/-- An array literal with an identity of its own. -/
def Expr.newArray (items : List Value) : Build Expr :=
  return .array (← Build.fresh) (.array items)

/-- A query as a nested query with an identity of its own. -/
def Subquery.ofClauses (clauses : List Clause) : Build Subquery := return ⟨← Build.fresh, clauses⟩

/-- A query as a derived table with an identity of its own. -/
def Table.ofClauses (clauses : List Clause) (label : String) : Build Table :=
  return .derived (← Subquery.ofClauses clauses) label

end SqlBuilder
