/-!
# Shortest paths from a vertex

Vertices are numbered, `next v` lists the vertices one hop away from `v`. The search keeps a queue
of distances and vertices in ascending order and takes the least entry each time, so of equally
distant vertices the one with the smaller number goes first. A vertex is given a distance and a
predecessor when a shorter way to it is found.

A hop has length one, so the first way found is a shortest one and every reachable vertex is
queued exactly once. As many rounds as there are vertices therefore empty the queue.

Model of `JoinGraph::predecessors` (the loop is `Search.run`, one round of it `Search.step`).
Entries that were taken stay in the state, where only proofs look at them.
-/

namespace SqlBuilder.ShortestPaths

/-- The state of the search. -/
structure Search where
  /-- The shortest distance found so far. -/
  distance : Nat → Option Nat
  /-- The vertex before, on a way of that distance. -/
  previous : Nat → Option Nat
  /-- Distances and vertices yet to be taken, in ascending order. -/
  queue : List (Nat × Nat)
  /-- Distances and vertices taken, the latest first. -/
  taken : List (Nat × Nat)

/-- Ascending by distance, then by number. -/
def before (a b : Nat × Nat) : Bool := a.1 < b.1 || (a.1 == b.1 && a.2 < b.2)

/-- Puts an entry into its place in an ascending queue. -/
def enqueue (entry : Nat × Nat) : List (Nat × Nat) → List (Nat × Nat)
  | [] => [entry]
  | first :: rest => if before entry first then entry :: first :: rest
    else first :: enqueue entry rest

/-- Whether a distance improves on the one known so far. -/
def improves (d : Nat) : Option Nat → Bool
  | none => true
  | some known => d < known

namespace Search

/-- The search from a vertex. -/
def start (v : Nat) : Search :=
  ⟨fun w => if w = v then some 0 else none, fun _ => none, [(0, v)], []⟩

/-- Looks at the hop from `v`, at distance `d`, to `w`. -/
def relax (v d : Nat) (s : Search) (w : Nat) : Search :=
  if improves (d + 1) (s.distance w) then
    { s with
      distance := fun u => if u = w then some (d + 1) else s.distance u
      previous := fun u => if u = w then some v else s.previous u
      queue := enqueue (d + 1, w) s.queue }
  else s

/-- Whether a shorter way to a queued vertex was found after it was queued. -/
def isStale (s : Search) (entry : Nat × Nat) : Bool :=
  match s.distance entry.2 with
  | some d => d < entry.1
  | none => false

/-- Takes the first entry of the queue and looks at the hops from its vertex. -/
def step (next : Nat → List Nat) (s : Search) : Search :=
  match s.queue with
  | [] => s
  | (d, v) :: rest =>
    let s := { s with queue := rest, taken := (d, v) :: s.taken }
    if s.isStale (d, v) then s else (next v).foldl (relax v d) s

/-- A number of rounds. -/
def run (next : Nat → List Nat) : Nat → Search → Search
  | 0, s => s
  | rounds + 1, s => run next rounds (s.step next)

end Search

/-- The finished search from a vertex, among `count` vertices. -/
def search (count : Nat) (next : Nat → List Nat) (v : Nat) : Search :=
  Search.run next count (Search.start v)

end SqlBuilder.ShortestPaths
