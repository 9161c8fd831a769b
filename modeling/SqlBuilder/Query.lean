import SqlBuilder.Build

/-!
# Queries

A `Query` is the clauses added so far and the stage reached. `Query.step` adds to it what a step
asks for, if the stage has that step.

Model of `QueryPlan`, of `JoinItem`, and of the methods by which one stage type leads to the next,
from `select` to `OffsetStage`.
-/

namespace SqlBuilder

/-- A table to join, with its condition if there is one. -/
structure Join where
  target : Table
  on? : Option Condition

/-- The inner join of an item. -/
def Join.clause (item : Join) : Clause := .join .inner item.target item.on?

/-- A building step with what it adds. -/
inductive Step where
  | select (distinct : Bool) (items : List Expr)
  | selectAll (distinct : Bool)
  | fromTable (table : Table)
  | join (kind : JoinKind) (target : Table)
  /-- The condition of the join before it. -/
  | on (condition : Condition)
  /-- Inner joins; absent items are skipped. -/
  | joins (items : List (Option Join))
  | filter (condition : Condition)
  | groupBy (items : List Expr)
  | having (condition : Condition)
  | orderBy (keys : List SortKey)
  | limit (count : Nat)
  | offset (count : Nat)

def Step.kind : Step → StepKind
  | select false _ => .select
  | select true _ => .selectDistinct
  | selectAll false => .selectAll
  | selectAll true => .selectDistinctAll
  | fromTable _ => .fromTable
  | join .inner _ => .join
  | join .left _ => .leftJoin
  | join .right _ => .rightJoin
  | on _ => .on
  | joins _ => .joins
  | filter _ => .filter
  | groupBy _ => .groupBy
  | having _ => .having
  | orderBy _ => .orderBy
  | limit _ => .limit
  | offset _ => .offset

namespace Clause

/-- The clause's name in a listing of a query. -/
def label : Clause → String
  | select _ _ => "select"
  | fromTable _ => "from"
  | join kind _ _ => kind.keyword
  | filter _ => "where"
  | groupBy _ => "group_by"
  | having _ => "having"
  | orderBy _ => "order_by"
  | limit _ => "limit"
  | offset _ => "offset"

/-- Gives the last clause a condition, if that clause is a join. -/
def attach (condition : Condition) : List Clause → List Clause
  | [] => []
  | [.join kind target _] => [.join kind target (some condition)]
  | clause :: clauses => clause :: attach condition clauses

end Clause

/-- A query under construction. -/
structure Query where
  stage : Stage
  clauses : List Clause

namespace Query

/-- No clause yet. -/
def start : Query := ⟨.start, []⟩

/-- The stage after a kind of step, if the query's stage has it. -/
def allow (q : Query) (kind : StepKind) : Except BuildError Stage :=
  match q.stage.next? kind with
  | some stage => pure stage
  | none => throw (.unavailable q.stage kind)

/-- The clauses after a step that the stage has. A select list of its own has to have items. -/
def extend (clauses : List Clause) : Step → Except BuildError (List Clause)
  | .select distinct items =>
    if items.isEmpty then throw .emptySelect else return clauses ++ [.select distinct items]
  | .selectAll distinct => return clauses ++ [.select distinct []]
  | .fromTable table => return clauses ++ [.fromTable table]
  | .join kind target => return clauses ++ [.join kind target none]
  | .on condition => return Clause.attach condition clauses
  | .joins items => return clauses ++ (items.filterMap id).map Join.clause
  | .filter condition => return clauses ++ [.filter condition]
  | .groupBy items => return clauses ++ [.groupBy items]
  | .having condition => return clauses ++ [.having condition]
  | .orderBy keys => return clauses ++ [.orderBy keys]
  | .limit count => return clauses ++ [.limit count]
  | .offset count => return clauses ++ [.offset count]

/-- Adds a step to the query. -/
def step (q : Query) (s : Step) : Except BuildError Query := do
  let stage ← q.allow s.kind
  return ⟨stage, ← extend q.clauses s⟩

/-- Adds steps in order. -/
def steps (q : Query) : List Step → Except BuildError Query
  | [] => return q
  | s :: ss => do (← q.step s).steps ss

end Query
end SqlBuilder
