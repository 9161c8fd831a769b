import SqlBuilder.Table

/-!
# Maps keyed by tables

An association list in insertion order. Keys are compared with `==` on tables. An update keeps the
place of its key and a new key goes to the end.

Model of the two levels of maps that `JoinGraph` keeps its links in.
-/

namespace SqlBuilder

/-- Values by table, in the order in which the tables were added. -/
abbrev TableMap (α : Type) := List (Table × α)

namespace TableMap

variable {α : Type}

def keys (m : TableMap α) : List Table := m.map Prod.fst

/-- The value at a table. -/
def get? (m : TableMap α) (t : Table) : Option α := (m.find? (·.1 == t)).map Prod.snd

/-- The position of a table. -/
def index? (m : TableMap α) (t : Table) : Option Nat := m.findIdx? (·.1 == t)

/-- Sets the value at a table to what `f` makes of the present one. -/
def alter (f : Option α → α) (t : Table) : TableMap α → TableMap α
  | [] => [(t, f none)]
  | (u, a) :: rest => if u == t then (u, f (some a)) :: rest else (u, a) :: alter f t rest

/-- Removes a table. -/
def erase (m : TableMap α) (t : Table) : TableMap α := m.filter fun entry => !(entry.1 == t)

end TableMap
end SqlBuilder
