import SqlBuilder.Proofs.JoinGraph.Paths

/-!
# Which of several shortest paths is taken

A table can have several neighbours that are one hop nearer to the source. `pathTree` goes back to
the one that comes first among the tables of the graph, wherever it stands among the neighbours
(`pathTree_eq_some_iff`). So the tree is a function of the order of the tables and of which tables
are linked, and the joins that are inferred along it depend on nothing else but the links themselves
(`inferJoins_of_tables`). `pathTree_earliest` puts this together.
-/

namespace SqlBuilder.JoinGraph

open ShortestPaths

variable {g g' : JoinGraph} {source target a b t u : Table} {i j k d n : Nat}

/-- The numbers of the neighbours of `t` that are `d` hops away from the source. -/
def neighboursAt (g : JoinGraph) (source t : Table) (d : Nat) : Set Nat :=
  {k | ∃ u, g.tables[k]? = some u ∧ (∃ b ∈ g.neighbours t, b.key = u.key) ∧
    IsLeast {m | g.Hops source m u} d}

/-! ## Tables by their numbers -/

theorem table_eq_some_iff :
    g.tables[i]? = some t ↔ ∃ neighbours, g.edges[i]? = some (t, neighbours) := by
  rw [tables, TableMap.keys, List.getElem?_map, Option.map_eq_some_iff]
  constructor
  · rintro ⟨⟨u, neighbours⟩, hget, rfl⟩
    exact ⟨neighbours, hget⟩
  · rintro ⟨neighbours, hget⟩
    exact ⟨_, hget, rfl⟩

theorem exists_table (h : i < g.edges.length) : ∃ t, g.tables[i]? = some t :=
  ⟨g.edges[i].1, table_eq_some_iff.mpr ⟨g.edges[i].2, List.getElem?_eq_getElem h⟩⟩

theorem Shape.index?_of_table (hg : g.Shape) (h : g.tables[i]? = some t) :
    g.edges.index? t = some i := by
  obtain ⟨neighbours, hget⟩ := table_eq_some_iff.mp h
  exact index?_of_getElem? hg hget

/-! ## The table before another -/

/-- Among the vertices of the search, the neighbours at a distance. -/
theorem WellFormed.mem_neighboursAt_iff (hg : g.WellFormed) {o : Nat}
    (ho : g.edges.index? source = some o) (ht : g.tables[i]? = some t) :
    k ∈ g.neighboursAt source t d ↔
      (search g.edges.length g.next o).distance k = some d ∧ i ∈ g.next k := by
  have hi := hg.shape.index?_of_table ht
  constructor
  · rintro ⟨u, hu, hneighbour, hd⟩
    have hk := hg.shape.index?_of_table hu
    have hlinks := hg.links_symm (hg.shape.exists_mem_neighbours_iff.mp hneighbour)
    exact ⟨(hg.distance_iff ho hk).mpr hd, (hg.mem_next_iff hk hi).mpr hlinks⟩
  · rintro ⟨hd, hmem⟩
    have hs := search_invariant (index?_lt ho) (next_lt (g := g))
    obtain ⟨u, hu⟩ := exists_table (hs.bounded k d hd)
    have hk := hg.shape.index?_of_table hu
    have hlinks := hg.links_symm ((hg.mem_next_iff hk hi).mp hmem)
    exact ⟨u, hu, hg.shape.exists_mem_neighbours_iff.mpr hlinks, (hg.distance_iff ho hk).mp hd⟩

/-- **The table before another is the first of its neighbours that are one hop nearer**, in the
order of the tables. -/
theorem WellFormed.pathTree_eq_some_iff (hg : g.WellFormed) : g.pathTree source i = some j ↔
    ∃ t d, g.tables[i]? = some t ∧ IsLeast {m | g.Hops source m t} (d + 1) ∧
      IsLeast (g.neighboursAt source t d) j := by
  unfold pathTree
  cases ho : g.edges.index? source with
  | none =>
    refine ⟨fun h => absurd h (by simp), ?_⟩
    rintro ⟨t, d, -, hd, -⟩
    exact absurd (key_eq_of_hops ho hd.1).1 (Nat.succ_ne_zero d)
  | some o =>
    have hset : ∀ {t}, g.tables[i]? = some t → ∀ d, g.neighboursAt source t d =
        {k | (search g.edges.length g.next o).distance k = some d ∧ i ∈ g.next k} :=
      fun ht d => Set.ext fun k => hg.mem_neighboursAt_iff ho ht
    refine (search_previous_iff (index?_lt ho) next_lt).trans ?_
    constructor
    · rintro ⟨d, hd, hj⟩
      have hs := search_invariant (index?_lt ho) (next_lt (g := g))
      obtain ⟨t, ht⟩ := exists_table (hs.bounded i _ hd)
      have hi := hg.shape.index?_of_table ht
      exact ⟨t, d, ht, (hg.distance_iff ho hi).mp hd, (hset ht d) ▸ hj⟩
    · rintro ⟨t, d, ht, hd, hj⟩
      have hi := hg.shape.index?_of_table ht
      exact ⟨d, (hg.distance_iff ho hi).mpr hd, (hset ht d) ▸ hj⟩

/-- A table is another table and connected to the source exactly when it has a table before it. -/
theorem WellFormed.exists_pathTree_iff (hg : g.WellFormed) :
    (∃ j, g.pathTree source i = some j) ↔
      ∃ t, g.tables[i]? = some t ∧ t.key ≠ source.key ∧ g.Connected source t := by
  constructor
  · rintro ⟨j, hj⟩
    obtain ⟨t, d, ht, hd, -⟩ := hg.pathTree_eq_some_iff.mp hj
    refine ⟨t, ht, fun hkey => ?_, d + 1, hd.1⟩
    exact absurd ((isLeast_zero hkey.symm).unique hd) (by omega)
  · rintro ⟨t, ht, hne, hconn⟩
    obtain ⟨p, hp⟩ := exists_precedes hg hconn (Ne.symm hne)
    obtain ⟨i', j, -, hi', hj, -⟩ := parent?_eq_some_iff.mp hp
    rw [hg.shape.index?_of_table ht] at hi'
    exact ⟨j, (Option.some.inj hi') ▸ hj⟩

/-! ## Graphs with the same tables -/

/-- The same tables in the same order, of which the same are linked. -/
structure SameShape (g g' : JoinGraph) : Prop where
  tables : g.tables.map Table.key = g'.tables.map Table.key
  linked : ∀ a b, g.links a b ≠ [] ↔ g'.links a b ≠ []

namespace SameShape

theorem symm (h : g.SameShape g') : g'.SameShape g :=
  ⟨h.tables.symm, fun a b => (h.linked a b).symm⟩

theorem exists_table (h : g.SameShape g') (ht : g.tables[i]? = some t) :
    ∃ t', g'.tables[i]? = some t' ∧ t'.key = t.key := by
  have hkey : (g'.tables.map Table.key)[i]? = some t.key := by
    rw [← h.tables, List.getElem?_map, ht]
    rfl
  rw [List.getElem?_map, Option.map_eq_some_iff] at hkey
  exact hkey

theorem hops (h : g.SameShape g') (hn : g.Hops a n b) : g'.Hops a n b := by
  induction hn with
  | here hkey => exact .here hkey
  | hop _ hlink ih => exact .hop ih ((h.linked _ _).mp hlink)

theorem distances (h : g.SameShape g') (hkey : t.key = u.key) :
    {m | g.Hops source m t} = {m | g'.Hops source m u} :=
  Set.ext fun _ => ⟨fun hm => h.hops (hm.congr hkey), fun hm => h.symm.hops (hm.congr hkey.symm)⟩

theorem neighboursAt_subset (h : g.SameShape g') (hg : g.Shape) (hg' : g'.Shape)
    (hkey : t.key = u.key) : g.neighboursAt source t d ⊆ g'.neighboursAt source u d := by
  rintro k ⟨v, hv, hneighbour, hd⟩
  obtain ⟨v', hv', hvkey⟩ := h.exists_table hv
  refine ⟨v', hv', ?_, ?_⟩
  · rw [hg'.exists_mem_neighbours_iff, ← h.linked, links_congr hkey.symm hvkey]
    exact hg.exists_mem_neighbours_iff.mp hneighbour
  · rwa [← h.distances hvkey.symm]

theorem pathTree_eq_some (h : g.SameShape g') (hg : g.WellFormed) (hg' : g'.WellFormed)
    (hj : g.pathTree source i = some j) : g'.pathTree source i = some j := by
  obtain ⟨t, d, ht, hd, hleast⟩ := hg.pathTree_eq_some_iff.mp hj
  obtain ⟨t', ht', hkey⟩ := h.exists_table ht
  refine hg'.pathTree_eq_some_iff.mpr ⟨t', d, ht', ?_, ?_⟩
  · rwa [← h.distances hkey.symm]
  · have hsame : g.neighboursAt source t d = g'.neighboursAt source t' d :=
      (h.neighboursAt_subset hg.shape hg'.shape hkey.symm).antisymm
        (h.symm.neighboursAt_subset hg'.shape hg.shape hkey)
    rwa [← hsame]

/-- **The path tree depends on the order of the tables and on which of them are linked only.** -/
theorem pathTree (h : g.SameShape g') (hg : g.WellFormed) (hg' : g'.WellFormed)
    (source : Table) : g.pathTree source = g'.pathTree source := by
  funext i
  refine Option.ext fun j => ?_
  exact ⟨h.pathTree_eq_some hg hg', h.symm.pathTree_eq_some hg' hg⟩

end SameShape

/-! ## Joins along the tree -/

section Joins

variable {previous : Nat → Option Nat} {joined targets : List Table} {chain : List Join}
  {fuel : Nat}

theorem index?_of_tables (htables : g.tables = g'.tables) :
    g.edges.index? t = g'.edges.index? t := by
  have hfind : ∀ g : JoinGraph, g.edges.index? t = g.tables.findIdx? (· == t) := by
    intro g
    rw [tables, TableMap.keys, List.findIdx?_map]
    rfl
  rw [hfind, hfind, htables]

theorem parent?_of_tables (htables : g.tables = g'.tables) :
    g.parent? previous t = g'.parent? previous t := by
  have htable : ∀ {g : JoinGraph} {p}, g.parent? previous t = some p ↔
      ∃ i j, g.edges.index? t = some i ∧ previous i = some j ∧ g.tables[j]? = some p := by
    intro g p
    simp only [parent?_eq_some_iff, table_eq_some_iff, exists_and_left]
  refine Option.ext fun p => ?_
  rw [htable, htable, index?_of_tables htables, htables]

theorem walk_of_tables (htables : g.tables = g'.tables) (hlinks : g.links = g'.links) :
    g.walk previous source target fuel joined t chain =
      g'.walk previous source target fuel joined t chain := by
  induction fuel generalizing joined t chain with
  | zero =>
    unfold walk
    rw [parent?_of_tables htables]
  | succ fuel ih =>
    unfold walk
    rw [parent?_of_tables htables, hlinks]
    cases g'.parent? previous t with
    | none => rfl
    | some p =>
      rcases hlinksp : g'.links p t with _ | ⟨l, _ | ⟨_, _⟩⟩
      · simp only [hlinksp]
      · simp only [hlinksp, ih]
      · simp only [hlinksp]

theorem resolve_of_tables (htables : g.tables = g'.tables) (hlinks : g.links = g'.links) :
    g.resolve previous source joined targets = g'.resolve previous source joined targets := by
  have hlength : g.edges.length = g'.edges.length := by
    have := congrArg List.length htables
    simpa [tables, TableMap.keys] using this
  induction targets generalizing joined with
  | nil => rfl
  | cons t targets ih =>
    unfold resolve
    rw [walk_of_tables htables hlinks, hlength]
    simp only [ih]

/-- **The joins depend on nothing but the order of the tables and their links.** -/
theorem inferJoins_of_tables (hg : g.WellFormed) (hg' : g'.WellFormed)
    (htables : g.tables = g'.tables) (hlinks : g.links = g'.links) (source : Table)
    (targets : List Table) : g.inferJoins source targets = g'.inferJoins source targets := by
  have hshape : g.SameShape g' := ⟨by rw [htables], fun a b => by rw [hlinks]⟩
  unfold inferJoins
  rw [hshape.pathTree hg hg', resolve_of_tables htables hlinks]

end Joins

/-- **The path tree goes back to the earliest table among the nearest neighbours.** It is defined on
the tables that are connected to the source, the source apart. From a table at distance `d + 1` it
leads to the first, in the order of the tables, of the neighbours at distance `d`. In another graph
with the same tables in the same order, of which the same are linked, it is the same tree; when the
links are the same too, so are the joins that it gives. -/
theorem pathTree_earliest (hg : g.Reachable) (source : Table) :
    (∀ i, (∃ j, g.pathTree source i = some j) ↔
      ∃ t, g.tables[i]? = some t ∧ t.key ≠ source.key ∧ g.Connected source t) ∧
    (∀ i t d, g.tables[i]? = some t → IsLeast {m | g.Hops source m t} (d + 1) →
      ∃ j, g.pathTree source i = some j ∧ IsLeast (g.neighboursAt source t d) j) ∧
    (∀ g' : JoinGraph, g'.Reachable → g.SameShape g' → g.pathTree source = g'.pathTree source) ∧
    ∀ g' : JoinGraph, g'.Reachable → g.tables = g'.tables → g.links = g'.links →
      ∀ targets, g.inferJoins source targets = g'.inferJoins source targets := by
  have hwf := hg.wellFormed
  refine ⟨fun i => hwf.exists_pathTree_iff, ?_, ?_, ?_⟩
  · intro i t d ht hd
    have hne : t.key ≠ source.key := by
      intro hkey
      exact absurd ((isLeast_zero hkey.symm).unique hd) (by omega)
    obtain ⟨j, hj⟩ := hwf.exists_pathTree_iff.mpr ⟨t, ht, hne, d + 1, hd.1⟩
    obtain ⟨u, n, hu, hn, hleast⟩ := hwf.pathTree_eq_some_iff.mp hj
    obtain rfl := Option.some.inj (ht.symm.trans hu)
    obtain rfl := Nat.succ.inj (hd.unique hn)
    exact ⟨j, hj, hleast⟩
  · exact fun g' hg' hshape => hshape.pathTree hwf hg'.wellFormed source
  · exact fun g' hg' htables hlinks =>
      inferJoins_of_tables hwf hg'.wellFormed htables hlinks source

/-- Two shortest ways lead from `users` to `c`. Both `users` and `c` name `a` before `b`, but `b` is
the earlier table of the graph, so the path goes over `b`. -/
theorem pathTree_earliest_two_ways :
    let g := ofForeignKeys [⟨"b", "d_id", "d", "id"⟩, ⟨"users", "a_id", "a", "id"⟩,
      ⟨"c", "a_id", "a", "id"⟩, ⟨"c", "b_id", "b", "id"⟩, ⟨"users", "b_id", "b", "id"⟩]
    let users := Table.ofName "users"
    let c := Table.ofName "c"
    g.tables.map Table.name = ["b", "d", "users", "a", "c"] ∧
      (g.neighbours users).map Table.name = ["a", "b"] ∧
      (g.neighbours c).map Table.name = ["a", "b"] ∧
      g.tables[4]? = some c ∧ IsLeast {m | g.Hops users m c} 2 ∧
      g.pathTree users 4 = some 0 ∧ IsLeast (g.neighboursAt users c 1) 0 := by
  intro g users c
  have hg : g.Reachable := .ofForeignKeys _
  have hdistance : IsLeast {m | g.Hops users m c} 2 :=
    (hg.wellFormed.distance_iff (o := 2) (j := 4) rfl rfl).mp (by decide +kernel)
  have hprevious : g.pathTree users 4 = some 0 := by decide +kernel
  obtain ⟨-, hearliest, -⟩ := pathTree_earliest hg users
  obtain ⟨j, hj, hleast⟩ := hearliest 4 c 1 rfl hdistance
  obtain rfl := Option.some.inj (hprevious.symm.trans hj)
  exact ⟨rfl, rfl, rfl, rfl, hdistance, hprevious, hleast⟩

end SqlBuilder.JoinGraph
