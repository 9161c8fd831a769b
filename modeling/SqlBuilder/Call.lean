import SqlBuilder.Build

/-!
# Function calls

Calls of the functions and aggregates that every database has, and of any other by name. Several
arguments are one composite argument; a single argument is passed as it is.

Model of `FuncCall`, of `Func::call`, and of the functions from `count` to `exists`.
-/

namespace SqlBuilder

namespace Expr

/-- A text that is written as it is. -/
def verbatim (text : String) : Expr := .column (.verbatim text)

/-- A comma-separated list. -/
def commaSeparated (items : List Expr) : Expr := .composite ", " items

end Expr

namespace Call

/-- A call with one argument. -/
def unary (name : String) (arg : Expr) : Call := ⟨name, arg, false, false, none⟩

/-- A call with any number of arguments. -/
def ofArgs (name : String) : List Expr → Call
  | [arg] => unary name arg
  | args => unary name (.commaSeparated args)

def withDistinct (c : Call) : Call := { c with distinct := true }

def aliased (c : Call) (label : String) : Call := { c with alias? := some label }

/-! ## Aggregates -/

/-- The number of rows. -/
def count : Call := unary "COUNT" (.verbatim "1")

def countOf (arg : Expr) : Call := unary "COUNT" arg

/-- The number of distinct combinations; there has to be at least one argument. -/
def countDistinct (args : List Expr) : Except BuildError Call :=
  if args.isEmpty then throw .emptyCount
  else return (unary "COUNT" (.commaSeparated args)).withDistinct

def sum (arg : Expr) : Call := unary "SUM" arg

def avg (arg : Expr) : Call := unary "AVG" arg

def min (arg : Expr) : Call := unary "MIN" arg

def max (arg : Expr) : Call := unary "MAX" arg

/-! ## Functions of a row -/

def upper (arg : Expr) : Call := unary "UPPER" arg

def lower (arg : Expr) : Call := unary "LOWER" arg

def trim (arg : Expr) : Call := unary "TRIM" arg

def length (arg : Expr) : Call := unary "LENGTH" arg

def abs (arg : Expr) : Call := unary "ABS" arg

def round (arg : Expr) (decimals : Nat) : Call :=
  ofArgs "ROUND" [arg, .verbatim (toString decimals)]

def coalesce (args : List Expr) : Call := ofArgs "COALESCE" args

/-- Whether a nested query has rows; its parentheses are those of the call. -/
def existsRows (query : Subquery) : Call := ⟨"EXISTS", .subquery query, false, true, none⟩

end Call
end SqlBuilder
