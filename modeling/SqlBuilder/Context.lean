/-!
# Contexts

Where in a statement a node is written decides what becomes of its alias.

Model of `RenderContext`.
-/

namespace SqlBuilder

/-- Where a node is written. -/
inductive Context where
  /-- Where names are introduced: a select list, a source of rows. -/
  | definition
  /-- Where names are used. -/
  | reference
  /-- A sort key, which may use a name that the select list has introduced. -/
  | orderBy
  /-- A node on its own. -/
  | output
deriving DecidableEq

/-- What a context makes of an alias. -/
inductive AliasUse where
  /-- The alias is introduced, after the node. -/
  | introduced
  /-- The alias stands for the node. -/
  | used
  /-- The alias is not written. -/
  | ignored
deriving DecidableEq

def Context.aliasUse : Context → AliasUse
  | definition => .introduced
  | reference => .ignored
  | orderBy => .used
  | output => .introduced

end SqlBuilder
