import Mathlib.Data.Set.Card
import SqlBuilder.Proofs.JoinGraph.Joins
import SqlBuilder.Proofs.JoinGraph.PathTree
import SqlBuilder.Proofs.JoinGraph.Rounds

/-!
# Every table is visited once

The search goes through the tables that are connected with the source, one in each round, by their
distance (`Visits`). What was queued is never stale, and what was queued and its neighbours are
tables of the graph, in whatever round (`Sound`). So the tests for the contrary never succeed, and
no distance comes near the number of tables. All this is carried over from the rounds of the search
on numbers.

A walk back from a target is at a `Place`. `Turn` is what one round of its loop does, and each turn
leads one hop nearer to the source (`Turn.distance`). By induction on turns, a walk that was at
distance `d` is at distance `d - i` after `i` of them (`Turns.nearer`), and by induction on the
distance it ends (`exists_ended`). The fuel that stands in for the loop in the definition lasts
(`Arrives.walk`).
-/

namespace SqlBuilder.JoinGraph

open ShortestPaths

variable {g : JoinGraph} {source t u p : Table} {i j k d n o : Nat}

/-! ## The search -/

/-- The search from a table goes through `order`: the distances and numbers of the tables that are
connected with it. -/
structure Visits (g : JoinGraph) (source : Table) (o : Nat) (order : List (Nat × Nat)) : Prop where
  /-- Each of these tables is there once, with its distance. -/
  connected : ∀ d i, (d, i) ∈ order ↔
    ∃ t, g.tables[i]? = some t ∧ IsLeast {m | g.Hops source m t} d
  nodup : (order.map Prod.snd).Nodup
  ascending : order.Pairwise fun a b => a.1 ≤ b.1
  /-- There are as many as tables connected with the source, -/
  length : order.length = {i : Nat | ∃ t, g.tables[i]? = some t ∧ g.Connected source t}.ncard
  /-- and every distance is below that. -/
  distance_lt : ∀ e ∈ order, e.1 < order.length
  length_le : order.length ≤ g.tables.length
  /-- A round takes one of them, in this order, and after as many rounds the queue is empty. -/
  taken : ∀ k, (Search.run g.next k (.start o)).taken.reverse = order.take k
  queue : ∀ k, (Search.run g.next k (.start o)).queue = [] ↔ order.length ≤ k
  /-- All that is ever put into the queue is put there once. -/
  log : ∀ k, order.length ≤ k → ((0, o) :: Search.log g.next k (.start o)).Perm order

/-- What a search meets in any round. -/
structure Sound (g : JoinGraph) (source : Table) (s : Search) : Prop where
  /-- No entry is stale when its turn comes. -/
  fresh : ∀ e ∈ s.queue, s.isStale e = false
  /-- An entry is about a table of the graph, and so is each of its neighbours. -/
  indexed : ∀ e ∈ s.queue, ∃ t neighbours, g.edges[e.2]? = some (t, neighbours) ∧
    ∀ u ∈ neighbours.keys, ∃ j, g.edges.index? u = some j
  /-- A distance that was given to a table is the right one, and below the number of tables. -/
  final : ∀ i d, s.distance i = some d → d < g.tables.length ∧
    ∃ t, g.tables[i]? = some t ∧ IsLeast {m | g.Hops source m t} d

theorem length_tables (g : JoinGraph) : g.tables.length = g.edges.length := List.length_map _

theorem WellFormed.distance_eq_some_iff (hg : g.WellFormed)
    (ho : g.edges.index? source = some o) :
    (search g.edges.length g.next o).distance i = some d ↔
      ∃ t, g.tables[i]? = some t ∧ IsLeast {m | g.Hops source m t} d := by
  have hs := search_invariant (index?_lt ho) (next_lt (g := g))
  constructor
  · intro h
    obtain ⟨t, ht⟩ := exists_table (hs.bounded i d h)
    exact ⟨t, ht, (hg.distance_iff ho (hg.shape.index?_of_table ht)).mp h⟩
  · rintro ⟨t, ht, hd⟩
    exact (hg.distance_iff ho (hg.shape.index?_of_table ht)).mpr hd

theorem WellFormed.distance_lt (hg : g.WellFormed) (ho : g.edges.index? source = some o)
    (hd : IsLeast {m | g.Hops source m t} d) : d < g.tables.length := by
  obtain ⟨j, hj, -⟩ := hg.way_of_hops ho hd.1
  rw [length_tables]
  exact search_distance_lt (index?_lt ho) next_lt ((hg.distance_iff ho hj).mpr hd)

theorem WellFormed.mem_taken_iff (hg : g.WellFormed) (ho : g.edges.index? source = some o) :
    (d, i) ∈ (search g.edges.length g.next o).taken ↔
      ∃ t, g.tables[i]? = some t ∧ IsLeast {m | g.Hops source m t} d := by
  have hs := search_invariant (index?_lt ho) (next_lt (g := g))
  rw [← hg.distance_eq_some_iff ho, hs.known, search_queue (index?_lt ho) next_lt]
  simp only [List.not_mem_nil, or_false]

theorem WellFormed.visits (hg : g.WellFormed) (ho : g.edges.index? source = some o) :
    g.Visits source o (search g.edges.length g.next o).taken.reverse := by
  have hs := search_invariant (index?_lt ho) (next_lt (g := g))
  have hqueue := search_queue (index?_lt ho) (next_lt (g := g))
  have hascending := hs.ascending
  have hnodup := hs.nodup_vertices
  have hmem : ∀ e, e ∈ (search g.edges.length g.next o).taken.reverse ↔ ∃ t,
      g.tables[e.2]? = some t ∧ IsLeast {m | g.Hops source m t} e.1 := fun e => by
    rw [List.mem_reverse, hg.mem_taken_iff ho]
  rw [hqueue, List.append_nil] at hascending hnodup
  exact {
    connected := fun d i => hmem (d, i)
    nodup := hnodup
    ascending := hascending.imp fun h => by
      rw [before_iff] at h
      omega
    length := by
      have hset : {i : Nat | ∃ t, g.tables[i]? = some t ∧ g.Connected source t} =
          ((search g.edges.length g.next o).taken.reverse.map Prod.snd).toFinset := by
        ext i
        simp only [Set.mem_ofPred_eq, List.coe_toFinset, List.mem_map, hmem]
        constructor
        · rintro ⟨t, ht, hconn⟩
          obtain ⟨d, hd, -⟩ := exists_distance hg hconn
          exact ⟨(d, i), ⟨t, ht, hd⟩, rfl⟩
        · rintro ⟨e, ⟨t, ht, hd⟩, rfl⟩
          exact ⟨t, ht, e.1, hd.1⟩
      rw [hset, Set.ncard_coe_finset, List.toFinset_card_of_nodup hnodup, List.length_map]
    distance_lt := fun e he => by
      rw [List.length_reverse]
      exact hs.taken_lt e (List.mem_reverse.mp he)
    length_le := by
      have := hs.length_le
      rw [List.length_reverse, length_tables]
      omega
    taken := taken_run (index?_lt ho) next_lt
    queue := fun k => by rw [queue_run_iff (index?_lt ho) next_lt, List.length_reverse]
    log := fun k hk => by
      rw [List.length_reverse] at hk
      exact (perm_log (index?_lt ho) next_lt hk).trans (List.reverse_perm _).symm }

theorem WellFormed.sound_run (hg : g.WellFormed) (ho : g.edges.index? source = some o) (k : Nat) :
    g.Sound source (Search.run g.next k (.start o)) := by
  have hs := (Invariant.start (index?_lt ho)).run (next_lt (g := g)) k
  refine ⟨fun e he => hs.not_stale he, fun e he => ?_, fun i d h => ?_⟩
  · have hlt := hs.bounded e.2 e.1 ((hs.known e.2 e.1).mpr (.inr he))
    obtain ⟨⟨t, neighbours⟩, hget⟩ : ∃ entry, g.edges[e.2]? = some entry :=
      ⟨_, List.getElem?_eq_getElem hlt⟩
    have hkeys : g.neighbours t = neighbours.keys :=
      congrArg TableMap.keys (entry_of_getElem? hg.shape hget)
    refine ⟨t, neighbours, hget, fun u hu => ?_⟩
    rw [← hkeys] at hu
    have hlinks := hg.shape.exists_mem_neighbours_iff.mp ⟨u, hu, rfl⟩
    exact exists_index?_of_links (hg.links_symm hlinks)
  · have hfinal := distance_run (index?_lt ho) next_lt h
    exact ⟨length_tables g ▸ search_distance_lt (index?_lt ho) next_lt hfinal,
      (hg.distance_eq_some_iff ho).mp hfinal⟩

/-! ## The walk back -/

/-- How far a walk is: the tables that are joined, the table it is at, and the joins that it has
found. -/
structure Place where
  joined : List Table
  current : Table
  chain : List Join

/-- One turn of a walk. It is at a table that is not joined, and goes to the table before it, from
which one link leads back. -/
inductive Turn (g : JoinGraph) (source : Table) : Place → Place → Prop
  | back {joined : List Table} {t p : Table} {chain : List Join} {l : Link}
      (hnew : (t == source || joined.any (· == t)) = false) (hp : g.Precedes source p t)
      (hl : g.links p t = [l]) :
      Turn g source ⟨joined, t, chain⟩ ⟨t :: joined, p, ⟨t, some l.equation⟩ :: chain⟩

/-- Turns in a row, with the tables that the walk was at before each. -/
inductive Turns (g : JoinGraph) (source : Table) : List Table → Place → Place → Prop
  | none (s : Place) : Turns g source [] s s
  | turn {passed : List Table} {s s' last : Place} (h : g.Turn source s s')
      (hturns : Turns g source passed s' last) : Turns g source (s.current :: passed) s last

/-- The walk that is somewhere, with so much fuel. -/
def walkFrom (g : JoinGraph) (source target : Table) (fuel : Nat) (s : Place) :
    Except JoinError (List Join) :=
  g.walk (g.pathTree source) source target fuel s.joined s.current s.chain

/-- A walk passes tables, one nearer to the source than the other, and ends somewhere. -/
structure Arrives (g : JoinGraph) (source : Table) (s : Place) (passed : List Table)
    (last : Place) : Prop where
  turns : g.Turns source passed s last
  ended : ∀ s', ¬ g.Turn source last s'
  /-- From a table at distance `d`, the walk is at distance `d - i` after `i` turns. -/
  nearer : ∀ d, IsLeast {m | g.Hops source m s.current} d → passed.length ≤ d ∧
    ∀ i t, (passed ++ [last.current])[i]? = some t → IsLeast {m | g.Hops source m t} (d - i)
  lost : ¬ g.Connected source s.current → passed = []
  nodup : ((passed ++ [last.current]).map Table.key).Nodup
  /-- The turns are what the walk does, and its fuel lasts. -/
  walk : ∀ target fuel, passed.length < fuel →
    g.walkFrom source target fuel s = g.walkFrom source target 1 last

section Walk

variable {s s' last : Place} {passed : List Table} {target : Table} {fuel : Nat}

/-- **A turn leads one hop nearer to the source.** -/
theorem Turn.distance (hg : g.WellFormed) (h : g.Turn source s s') :
    ∃ d, IsLeast {m | g.Hops source m s'.current} d ∧
      IsLeast {m | g.Hops source m s.current} (d + 1) := by
  cases h with
  | back _ hp _ =>
    obtain ⟨d, hd, hsucc, -⟩ := hp.distance hg
    exact ⟨d, hd, hsucc⟩

theorem Turn.walkFrom_eq (h : g.Turn source s s') :
    g.walkFrom source target (fuel + 1) s = g.walkFrom source target fuel s' := by
  cases h with
  | back hnew hp hl => exact walk_of_link hnew hp hl

theorem Turns.walkFrom_eq (h : g.Turns source passed s last) :
    g.walkFrom source target (fuel + passed.length) s = g.walkFrom source target fuel last := by
  induction h with
  | none s => rfl
  | turn h _ ih => rw [List.length_cons, ← Nat.add_assoc, h.walkFrom_eq, ih]

/-- Where there is no turn to make, fuel does not matter. -/
theorem walkFrom_of_ended (h : ∀ s', ¬ g.Turn source s s') :
    g.walkFrom source target (fuel + 1) s = g.walkFrom source target 1 s := by
  obtain ⟨joined, t, chain⟩ := s
  unfold walkFrom
  cases hnew : t == source || joined.any (· == t) with
  | true => rw [walk_of_arrived hnew, walk_of_arrived hnew]
  | false =>
    cases hp : g.parent? (g.pathTree source) t with
    | none => rw [walk_of_lost hnew hp, walk_of_lost hnew hp]
    | some p =>
      have hmany : ∀ l, g.links p t ≠ [l] := fun l hl => h _ (.back hnew hp hl)
      rw [walk_of_links hnew hp hmany, walk_of_links hnew hp hmany]

theorem Turns.nearer (hg : g.WellFormed) (h : g.Turns source passed s last) :
    ∀ d, IsLeast {m | g.Hops source m s.current} d → passed.length ≤ d ∧
      ∀ i t, (passed ++ [last.current])[i]? = some t →
        IsLeast {m | g.Hops source m t} (d - i) := by
  induction h with
  | none s =>
    intro d hd
    refine ⟨Nat.zero_le d, fun i t ht => ?_⟩
    cases i with
    | zero =>
      obtain rfl := Option.some.inj ht
      exact hd
    | succ i => exact nomatch ht
  | turn h _ ih =>
    intro d hd
    obtain ⟨n, hn, hsucc⟩ := h.distance hg
    obtain rfl := hd.unique hsucc
    obtain ⟨hle, hrest⟩ := ih n hn
    refine ⟨Nat.succ_le_succ hle, fun i t ht => ?_⟩
    cases i with
    | zero =>
      obtain rfl := Option.some.inj ht
      exact hd
    | succ i =>
      rw [Nat.add_sub_add_right]
      exact hrest i t ht

/-- A walk has no turn to make from a table that is not connected with the source. -/
theorem Turns.lost (hg : g.WellFormed) (h : g.Turns source passed s last)
    (hs : ¬ g.Connected source s.current) : passed = [] := by
  cases h with
  | none => rfl
  | turn h _ =>
    obtain ⟨d, -, hd⟩ := h.distance hg
    exact absurd ⟨d + 1, hd.1⟩ hs

/-- Tables at different distances are different. -/
theorem nodup_of_nearer {tables : List Table} (hlength : tables.length ≤ d + 1)
    (h : ∀ i t, tables[i]? = some t → IsLeast {m | g.Hops source m t} (d - i)) :
    (tables.map Table.key).Nodup := by
  rw [List.Nodup, List.pairwise_map, List.pairwise_iff_getElem]
  intro i j hi hj hij hkey
  have hdi := h i _ (List.getElem?_eq_getElem hi)
  have hdj := h j _ (List.getElem?_eq_getElem hj)
  rw [hops_congr hkey] at hdi
  have := hdi.unique hdj
  omega

theorem exists_ended (hg : g.WellFormed) (source : Table) (s : Place) :
    ∃ passed last, g.Turns source passed s last ∧ ∀ s', ¬ g.Turn source last s' := by
  by_cases hconn : g.Connected source s.current
  · obtain ⟨d, hd, -⟩ := exists_distance hg hconn
    clear hconn
    induction d generalizing s with
    | zero =>
      refine ⟨[], s, .none s, fun s' h => ?_⟩
      obtain ⟨n, -, hn⟩ := h.distance hg
      exact absurd (hd.unique hn) (by omega)
    | succ d ih =>
      by_cases hturn : ∃ s', g.Turn source s s'
      · obtain ⟨s', hturn⟩ := hturn
        obtain ⟨n, hn, hsucc⟩ := hturn.distance hg
        obtain rfl := Nat.succ.inj (hd.unique hsucc)
        obtain ⟨passed, last, hturns, hended⟩ := ih s' hn
        exact ⟨s.current :: passed, last, .turn hturn hturns, hended⟩
      · exact ⟨[], s, .none s, fun s' h => hturn ⟨s', h⟩⟩
  · refine ⟨[], s, .none s, fun s' h => ?_⟩
    obtain ⟨d, -, hd⟩ := h.distance hg
    exact hconn ⟨d + 1, hd.1⟩

/-- **A walk ends**, wherever it is. -/
theorem exists_arrives (hg : g.WellFormed) (source : Table) (s : Place) :
    ∃ passed last, g.Arrives source s passed last := by
  obtain ⟨passed, last, hturns, hended⟩ := exists_ended hg source s
  refine ⟨passed, last, hturns, hended, hturns.nearer hg, hturns.lost hg, ?_, ?_⟩
  · by_cases hconn : g.Connected source s.current
    · obtain ⟨d, hd, -⟩ := exists_distance hg hconn
      obtain ⟨hle, hnearer⟩ := hturns.nearer hg d hd
      refine nodup_of_nearer (d := d) ?_ hnearer
      rw [List.length_append, List.length_singleton]
      omega
    · rw [hturns.lost hg hconn]
      exact List.nodup_singleton _
  · intro target fuel hfuel
    obtain ⟨n, rfl⟩ := Nat.exists_eq_add_of_lt hfuel
    rw [Nat.add_assoc, Nat.add_comm, hturns.walkFrom_eq, walkFrom_of_ended hended]

end Walk

/-- **Every table that is connected with the source is visited once**: the search takes each of them
once, by distance, and a table is queued only then and with its distance; it meets no stale entry
and no table without a number, and every distance is below the number of tables. A walk back to the
source goes one hop nearer in each turn. So it ends, after no more turns than its distance was, and
comes to no table twice. -/
theorem visits_once (hg : g.Reachable) (ho : g.edges.index? source = some o) :
    (∃ order, g.Visits source o order) ∧
    (∀ k, g.Sound source (Search.run g.next k (.start o))) ∧
    (∀ s s', g.Turn source s s' → ∃ d, IsLeast {m | g.Hops source m s'.current} d ∧
      IsLeast {m | g.Hops source m s.current} (d + 1)) ∧
    ∀ s, ∃ passed last, g.Arrives source s passed last ∧ passed.length < g.tables.length := by
  have hwf := hg.wellFormed
  refine ⟨⟨_, hwf.visits ho⟩, hwf.sound_run ho, fun s s' h => h.distance hwf, fun s => ?_⟩
  obtain ⟨passed, last, harrives⟩ := exists_arrives hwf source s
  refine ⟨passed, last, harrives, ?_⟩
  by_cases hconn : g.Connected source s.current
  · obtain ⟨d, hd, -⟩ := exists_distance hwf hconn
    exact (harrives.nearer d hd).1.trans_lt (hwf.distance_lt ho hd)
  · rw [harrives.lost hconn, length_tables]
    exact Nat.zero_lt_of_lt (index?_lt ho)

/-- Three tables in a circle, and a fourth one hop beyond. -/
theorem visits_once_circle :
    let g := ofForeignKeys [⟨"a", "b_id", "b", "id"⟩, ⟨"b", "c_id", "c", "id"⟩,
      ⟨"c", "a_id", "a", "id"⟩, ⟨"c", "d_id", "d", "id"⟩]
    let a := Table.ofName "a"
    g.Visits a 0 [(0, 0), (1, 1), (1, 2), (2, 3)] ∧
      ∃ passed last, g.Arrives a ⟨[], .ofName "d", []⟩ passed last ∧ passed.length < 4 := by
  intro g a
  have ho : g.edges.index? a = some 0 := rfl
  obtain ⟨⟨order, hvisits⟩, -, -, hwalk⟩ := visits_once (.ofForeignKeys _) ho
  have hqueue : (Search.run g.next 4 (.start 0)).queue = [] := by decide +kernel
  have htaken : (Search.run g.next 4 (.start 0)).taken.reverse =
      [(0, 0), (1, 1), (1, 2), (2, 3)] := by decide +kernel
  have horder := hvisits.taken 4
  rw [htaken, List.take_of_length_le ((hvisits.queue 4).mp hqueue)] at horder
  exact ⟨horder ▸ hvisits, hwalk _⟩

end SqlBuilder.JoinGraph
