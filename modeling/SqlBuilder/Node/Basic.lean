import SqlBuilder.ScalarType

/-!
# Nodes of a statement

The tree that a statement is built as: tables, columns, function calls, expressions, conditions,
sort keys and the clauses of a query. Nodes are values. Two kinds carry an identity, a number that
is handed out once: an array literal, which binds one parameter per identity, and a nested query,
which makes two derived tables different however alike they look.

Model of `Expr`, `Condition`, `Sort`, `Table`, `Clause` and their parts, among them `CompareOp`
(here `Comparison`), `Connector` (`Connective`) and `SortDirection` (`Direction`).
-/

namespace SqlBuilder

/-- Comparison operators. -/
inductive Comparison where
  | eq | ne | gt | ge | lt | le | like | ilike
deriving DecidableEq

def Comparison.keyword : Comparison → String
  | eq => "="
  | ne => "<>"
  | gt => ">"
  | ge => ">="
  | lt => "<"
  | le => "<="
  | like => "LIKE"
  | ilike => "ILIKE"

/-- How a comparison ranges over a set. -/
inductive Quantifier where
  | any | all
deriving DecidableEq

def Quantifier.keyword : Quantifier → String
  | any => "ANY"
  | all => "ALL"

/-- What joins the items of a chain of conditions. -/
inductive Connective where
  | and | or
deriving DecidableEq

def Connective.keyword : Connective → String
  | and => "AND"
  | or => "OR"

inductive Direction where
  | asc | desc
deriving DecidableEq

def Direction.keyword : Direction → String
  | asc => "ASC"
  | desc => "DESC"

inductive JoinKind where
  | inner | left | right
deriving DecidableEq

def JoinKind.keyword : JoinKind → String
  | inner => "JOIN"
  | left => "LEFT JOIN"
  | right => "RIGHT JOIN"

mutual

/-- A table, under its name or an alias. -/
structure Table where
  name : String
  alias? : Option String
  source : Source

/-- What stands behind a table. -/
inductive Source where
  /-- A table of the database. -/
  | base
  /-- The rows of a nested query. -/
  | derived (query : Subquery)

/-- A finished query used inside another statement. -/
structure Subquery where
  /-- Two handles with the same identity are the same query. -/
  id : Nat
  clauses : List Clause

/-- A column, or a text written as it is when there is no table. -/
structure Column where
  name : String
  table? : Option Table
  type : ScalarType
  alias? : Option String

/-- A function call with one argument. -/
structure Call where
  name : String
  arg : Expr
  distinct : Bool
  /-- Whether a nested query as argument goes without parentheses of its own. -/
  bare : Bool
  alias? : Option String

/-- A value expression. -/
inductive Expr where
  | column (column : Column)
  /-- A literal, bound by its value. -/
  | param (value : Value)
  /-- An array literal, bound by its identity. -/
  | array (id : Nat) (value : Value)
  | call (call : Call)
  /-- Expressions in order, with a separator between them. -/
  | composite (separator : String) (items : List Expr)
  | subquery (query : Subquery)
  /-- A table as a source of rows. -/
  | table (table : Table)
  /-- A table by the name it is referred to. -/
  | tableRef (table : Table)

/-- A condition. -/
inductive Condition where
  | compare (left : Expr) (op : Comparison) (right : Expr)
  | compareLiteral (left : Expr) (op : Comparison) (value : Value)
  | inLiterals (left : Expr) (values : List Value)
  | memberOf (left : Expr) (set : Expr)
  | compareSet (left : Expr) (op : Comparison) (quantifier : Quantifier) (set : Expr)
  | isNull (operand : Expr) (negated : Bool)
  | existsRows (query : Subquery)
  | chain (connective : Connective) (items : List Condition)
  | grouped (inner : Condition)

/-- A sort key. -/
structure SortKey where
  expr : Expr
  direction : Direction

/-- A clause of a query. An empty select list stands for all columns. -/
inductive Clause where
  | select (distinct : Bool) (items : List Expr)
  | fromTable (table : Table)
  | join (kind : JoinKind) (target : Table) (on? : Option Condition)
  | filter (condition : Condition)
  | groupBy (items : List Expr)
  | having (condition : Condition)
  | orderBy (items : List SortKey)
  | limit (count : Nat)
  | offset (count : Nat)

end

end SqlBuilder
