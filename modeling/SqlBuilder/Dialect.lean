/-!
# Dialects

A dialect decides how a placeholder is written. Any function from ordinals to texts will do; two
dialects have names that a configuration can give.

Model of `Dialect` with `StandardDialect` and `PostgresDialect`, and of `DialectKind`.
-/

namespace SqlBuilder

/-- A way of writing placeholders. -/
structure Dialect where
  name : String
  /-- The text written where the parameter with this ordinal is bound. -/
  placeholder : Nat → String

namespace Dialect

/-- Every placeholder is `?`. -/
def standard : Dialect := ⟨"standard", fun _ => "?"⟩

/-- A placeholder names its ordinal. -/
def postgres : Dialect := ⟨"postgres", fun ordinal => "$" ++ toString ordinal⟩

/-- The dialects that a configuration can give. -/
inductive Kind where
  | standard
  | postgres
deriving DecidableEq, Inhabited

namespace Kind

def dialect : Kind → Dialect
  | standard => .standard
  | postgres => .postgres

def name (k : Kind) : String := k.dialect.name

def placeholder (k : Kind) : Nat → String := k.dialect.placeholder

/-- All kinds, in the order in which messages list them. -/
def all : List Kind := [standard, postgres]

/-- The kind of a name; case matters. -/
def ofName? (s : String) : Option Kind := all.find? (·.name == s)

end Kind

/-- The dialect of a name; case matters. -/
def ofName? (s : String) : Option Dialect := (Kind.ofName? s).map Kind.dialect

end Dialect
end SqlBuilder
