import SqlBuilder.Node.Basic

/-!
# Stages of a query

A query is built clause by clause. The stage after a step is named for the clause that the step
added; `Stage.next?` is the whole grammar: which steps a stage has, and where they lead.

Model of the stage types from `SelectStage` to `OffsetStage`: a step is there where its type has the
method.
-/

namespace SqlBuilder

/-- How far a query has been built. -/
inductive Stage where
  | start | select | fromTable | join | filter | groupBy | having | orderBy | limit | offset
deriving DecidableEq, Inhabited

def Stage.name : Stage → String
  | start => "start"
  | select => "select"
  | fromTable => "from"
  | join => "join"
  | filter => "where"
  | groupBy => "group_by"
  | having => "having"
  | orderBy => "order_by"
  | limit => "limit"
  | offset => "offset"

/-- The kinds of building steps. -/
inductive StepKind where
  | select | selectDistinct | selectAll | selectDistinctAll
  | fromTable
  | join | leftJoin | rightJoin | on | joins
  | filter | groupBy | having | orderBy | limit | offset
deriving DecidableEq

namespace StepKind

def name : StepKind → String
  | select => "select"
  | selectDistinct => "select_distinct"
  | selectAll => "select_all"
  | selectDistinctAll => "select_distinct_all"
  | fromTable => "from"
  | join => "join"
  | leftJoin => "left_join"
  | rightJoin => "right_join"
  | on => "on"
  | joins => "joins"
  | filter => "where"
  | groupBy => "group_by"
  | having => "having"
  | orderBy => "order_by"
  | limit => "limit"
  | offset => "offset"

def all : List StepKind :=
  [select, selectDistinct, selectAll, selectDistinctAll, fromTable, join, leftJoin, rightJoin, on,
    joins, filter, groupBy, having, orderBy, limit, offset]

def ofName? (s : String) : Option StepKind := all.find? (·.name == s)

end StepKind

/-- Where a step leads from a stage, if the stage has that step. -/
def Stage.next? : Stage → StepKind → Option Stage
  | start, .select | start, .selectDistinct | start, .selectAll | start, .selectDistinctAll =>
    some select
  | select, .fromTable => some fromTable
  | fromTable, .join | fromTable, .leftJoin | fromTable, .rightJoin => some join
  | join, .on => some fromTable
  | fromTable, .joins => some fromTable
  | fromTable, .filter => some filter
  | fromTable, .groupBy | filter, .groupBy => some groupBy
  | groupBy, .having => some having
  | fromTable, .orderBy | filter, .orderBy | groupBy, .orderBy | having, .orderBy => some orderBy
  | orderBy, .limit => some limit
  | limit, .offset => some offset
  | _, _ => none

end SqlBuilder
