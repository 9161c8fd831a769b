import SqlBuilder.JoinGraph.Basic
import SqlBuilder.JoinGraph.ShortestPaths
import SqlBuilder.Query

/-!
# Inferred joins

`JoinGraph.inferJoins`: the joins that bring target tables to a source table, each target along
a shortest path. A table is joined once, on the one link from the table before it on the path,
which is the source or was joined earlier. A path is ambiguous where two tables have several links.

Model of `JoinGraph::minimal_joins`, its walk back included, and of `JoinError`.
-/

namespace SqlBuilder

/-- Why joins could not be inferred. Tables are named as they are referred to. -/
inductive JoinError where
  | noTargets
  /-- There is no path; `path` holds the tables met on the way back from the target. -/
  | unreachable (origin target last : String) (path : List String)
  /-- Two tables on a path are not joined by exactly one link. -/
  | ambiguousLink (near far : String) (candidates : List String)
deriving DecidableEq

namespace JoinError

def message : JoinError → String
  | noTargets => "Join resolution needs at least one target table"
  | unreachable origin target last _ =>
    "Target " ++ target ++ " is not reachable from " ++ origin ++ " (last table reached: " ++
      last ++ ")"
  | ambiguousLink near far candidates =>
    "Ambiguous link between " ++ near ++ " and " ++ far ++
      ": expected exactly one column pair, got " ++ toString candidates.length ++ ": " ++
      ", ".intercalate candidates

/-- The table that the error is about. -/
def table? : JoinError → Option String
  | noTargets => none
  | unreachable _ target _ _ => some target
  | ambiguousLink _ far _ => some far

end JoinError

namespace JoinGraph

/-! ## The path tree -/

/-- The numbers of a numbered table's neighbours, in order. -/
def next (g : JoinGraph) (i : Nat) : List Nat :=
  match g.edges[i]? with
  | some (_, neighbours) => neighbours.keys.filterMap g.edges.index?
  | none => []

/-- For the number of a table, the number of the table before it on its path from the source. -/
def pathTree (g : JoinGraph) (source : Table) : Nat → Option Nat :=
  match g.edges.index? source with
  | some start => (ShortestPaths.search g.edges.length g.next start).previous
  | none => fun _ => none

/-- The table before a table, by a predecessor map. -/
def parent? (g : JoinGraph) (previous : Nat → Option Nat) (t : Table) : Option Table := do
  let i ← g.edges.index? t
  let j ← previous i
  let (u, _) ← g.edges[j]?
  return u

/-! ## Walking back -/

/-- The joins on the way from `current` back to the source or to a table that is joined already,
put in front of `chain`. The number of tables bounds the way. -/
def walk (g : JoinGraph) (previous : Nat → Option Nat) (source target : Table) :
    Nat → List Table → Table → List Join → Except JoinError (List Join)
  | fuel, joined, current, chain =>
    if current == source || joined.any (· == current) then return chain
    else
      let lost := JoinError.unreachable source.exposedName target.exposedName
        current.exposedName (chain.reverse.map fun item => item.target.exposedName)
      match fuel, g.parent? previous current with
      | fuel + 1, some parent =>
        match g.links parent current with
        | [link] =>
          walk g previous source target fuel (current :: joined) parent
            (⟨current, some link.equation⟩ :: chain)
        | links =>
          throw (.ambiguousLink parent.exposedName current.exposedName
            (links.map Link.text))
      | _, _ => throw lost

/-- The joins for each target in turn; what one target has joined, the next ones share. -/
def resolve (g : JoinGraph) (previous : Nat → Option Nat) (source : Table) :
    List Table → List Table → Except JoinError (List Join)
  | _, [] => return []
  | joined, target :: targets => do
    let chain ← g.walk previous source target g.edges.length joined target []
    let rest ← g.resolve previous source (joined ++ chain.map Join.target) targets
    return chain ++ rest

/-- The joins that bring all targets to the source, in an order in which each condition only
names tables that are there. -/
def inferJoins (g : JoinGraph) (source : Table) (targets : List Table) :
    Except JoinError (List Join) :=
  if targets.isEmpty then throw .noTargets
  else g.resolve (g.pathTree source) source [] targets

end JoinGraph
end SqlBuilder
