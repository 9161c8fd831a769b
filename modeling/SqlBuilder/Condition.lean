import SqlBuilder.Call

/-!
# Conditions

Building conditions, with the check of literals against a column's type, and the columns that a
condition or an expression is about.

Model of the constructors and methods of `Condition` (`connect` is `append`), of the comparison
methods with their `check_param`, and of `Expr::collect_columns`.
-/

namespace SqlBuilder

/-! ## Comparing with literals -/

namespace Column

/-- Refuses a literal that does not fit the column's type. -/
def check (c : Column) (v : Value) : Except BuildError Unit :=
  if c.type.admits v then pure () else throw (.mismatch c v)

/-- Refuses a list with a literal that does not fit, on account of the first such literal. -/
def checkAll (c : Column) : List Value → Except BuildError Unit
  | [] => pure ()
  | v :: vs => do c.check v; c.checkAll vs

end Column

/-- Patterns are text for the database to match; they are not held against a column's type. -/
def Comparison.isPattern : Comparison → Bool
  | like | ilike => true
  | eq | ne | gt | ge | lt | le => false

namespace Expr

/-- Compares with a literal. Only a column checks what it is compared with. -/
def compareLiteral (left : Expr) (op : Comparison) (v : Value) : Except BuildError Condition := do
  match left with
  | .column c => unless op.isPattern do c.check v
  | _ => pure ()
  return .compareLiteral left op v

/-- Tests for membership in a list of literals. -/
def inLiterals (left : Expr) (vs : List Value) : Except BuildError Condition := do
  match left with
  | .column c => c.checkAll vs
  | _ => pure ()
  return .inLiterals left vs

end Expr

/-! ## Connecting -/

namespace Condition

/-- The condition that always holds. -/
def always : Condition := .compare (.verbatim "1") .eq (.verbatim "1")

/-- Appends to a chain with the same connective, and starts a chain otherwise. -/
def append (connective : Connective) (a b : Condition) : Condition :=
  match a with
  | .chain c items => if c = connective then .chain c (items ++ [b]) else .chain connective [a, b]
  | _ => .chain connective [a, b]

def and (a b : Condition) : Condition := append .and a b

def or (a b : Condition) : Condition := append .or a b

/-- All conditions of a list, and the one that always holds if there is none. -/
def all : List Condition → Condition
  | [] => always
  | c :: cs => cs.foldl and c

end Condition

/-! ## Columns -/

mutual

/-- The columns of an expression, into call arguments and composites, not into nested queries. -/
def Expr.columns : Expr → List Column
  | .column c => [c]
  | .call call => call.columns
  | .composite _ items => Expr.columnsOf items
  | .param _ | .array _ _ | .subquery _ | .table _ | .tableRef _ => []

/-- The columns of a call's argument. -/
def Call.columns : Call → List Column
  | ⟨_, arg, _, _, _⟩ => arg.columns

def Expr.columnsOf : List Expr → List Column
  | [] => []
  | item :: items => item.columns ++ Expr.columnsOf items

end

mutual

/-- The columns of a condition, from left to right, not into nested queries. -/
def Condition.columns : Condition → List Column
  | .compare left _ right => left.columns ++ right.columns
  | .compareLiteral left _ _ => left.columns
  | .inLiterals left _ => left.columns
  | .memberOf left set => left.columns ++ set.columns
  | .compareSet left _ _ set => left.columns ++ set.columns
  | .isNull operand _ => operand.columns
  | .existsRows _ => []
  | .chain _ items => Condition.columnsOf items
  | .grouped inner => inner.columns

def Condition.columnsOf : List Condition → List Column
  | [] => []
  | item :: items => item.columns ++ Condition.columnsOf items

end

end SqlBuilder
