import Mathlib.Logic.Relation
import Mathlib.Order.Bounds.Basic
import SqlBuilder.JoinGraph.Joins
import SqlBuilder.Proofs.JoinGraph.Invariant
import SqlBuilder.Proofs.JoinGraph.Search

/-!
# Paths in a join graph

`Hops` counts the links on a way between two tables. `Precedes` is the tree that joins are walked
along: the table before another on its path from the source. In a well-formed graph every table
that is connected to the source and is not the source has one before it, and that one is one hop
nearer to the source (`exists_precedes`, `Precedes.distance`).

The search works on numbers of tables. `hops_iff_way` carries its results over; nothing after this
module mentions numbers.
-/

namespace SqlBuilder.JoinGraph

open ShortestPaths

variable {g : JoinGraph} {source a b c p t : Table} {i j m n o : Nat}

/-- So many hops lead from `a` to a table, each along some link. -/
inductive Hops (g : JoinGraph) (a : Table) : Nat → Table → Prop
  | here {b : Table} (h : a.key = b.key) : Hops g a 0 b
  | hop {n : Nat} {b c : Table} (hb : Hops g a n b) (hlink : g.links b c ≠ []) :
      Hops g a (n + 1) c

/-- Some way leads from `a` to `b`. -/
def Connected (g : JoinGraph) (a b : Table) : Prop := ∃ n, g.Hops a n b

/-- `p` comes just before `t` on the path from `source` to `t`. -/
def Precedes (g : JoinGraph) (source p t : Table) : Prop :=
  g.parent? (g.pathTree source) t = some p

/-- The path from `source` to `t` goes through a table. -/
def OnPath (g : JoinGraph) (source t : Table) : Table → Prop :=
  Relation.ReflTransGen (fun u p => g.Precedes source p u) t

theorem Hops.congr (h : g.Hops a n b) (hkey : b.key = c.key) : g.Hops a n c := by
  cases h with
  | here h => exact .here (h.trans hkey)
  | hop hb hlink =>
    refine .hop hb ?_
    rwa [links_congr rfl hkey.symm]

theorem hops_congr (hkey : b.key = c.key) : {m | g.Hops a m b} = {m | g.Hops a m c} :=
  Set.ext fun _ => ⟨fun h => h.congr hkey, fun h => h.congr hkey.symm⟩

theorem isLeast_zero (h : a.key = b.key) : IsLeast {m | g.Hops a m b} 0 :=
  ⟨.here h, fun _ _ => Nat.zero_le _⟩

/-! ## Numbers of tables -/

theorem index?_congr (h : a.key = b.key) : g.edges.index? a = g.edges.index? b := by
  rw [TableMap.index?, TableMap.index?]
  congr
  funext entry
  rw [Bool.eq_iff_iff, Table.beq_iff, Table.beq_iff, h]

theorem key_eq_of_index? (hg : g.Shape) (ha : g.edges.index? a = some i)
    (hb : g.edges.index? b = some i) : a.key = b.key := by
  obtain ⟨u, _, hu, hua⟩ := (TableMap.index?_eq_some_iff hg.distinct).mp ha
  obtain ⟨v, _, hv, hvb⟩ := (TableMap.index?_eq_some_iff hg.distinct).mp hb
  rw [hu] at hv
  cases hv
  exact hua.symm.trans hvb

theorem index?_lt (h : g.edges.index? a = some i) : i < g.edges.length := by
  rw [TableMap.index?] at h
  exact (List.findIdx?_eq_some_iff_getElem.mp h).1

theorem index?_of_getElem? {neighbours : TableMap (List Link)} (hg : g.Shape)
    (h : g.edges[i]? = some (a, neighbours)) : g.edges.index? a = some i :=
  (TableMap.index?_eq_some_iff hg.distinct).mpr ⟨a, neighbours, h, rfl⟩

theorem entry_of_getElem? {neighbours : TableMap (List Link)} (hg : g.Shape)
    (h : g.edges[i]? = some (a, neighbours)) : g.entry a = neighbours := by
  unfold entry
  rw [TableMap.get?_of_mem hg.distinct (List.mem_of_getElem? h) rfl]
  rfl

/-- Both ends of a link are tables of the graph. -/
theorem exists_index?_of_links (h : g.links a b ≠ []) :
    ∃ i, g.edges.index? a = some i := by
  have hentry : g.edges.get? a ≠ none := by
    intro hnone
    rw [links_eq, entry, hnone] at h
    exact h rfl
  have hmem : ∃ u ∈ g.edges.keys, u.key = a.key := by
    by_contra hnot
    exact hentry (TableMap.get?_eq_none_iff.mpr fun u hu he => hnot ⟨u, hu, he⟩)
  exact Option.isSome_iff_exists.mp (TableMap.index?_isSome_iff.mpr hmem)

theorem WellFormed.links_symm (hg : g.WellFormed) (h : g.links a b ≠ []) : g.links b a ≠ [] := by
  obtain ⟨l, hl⟩ := List.exists_mem_of_ne_nil _ h
  obtain ⟨k, hk, -⟩ := hg.mirrored a b _ _ ⟨l, hl, rfl⟩
  exact List.ne_nil_of_mem hk

/-- The neighbours of a table are the tables that links lead to. -/
theorem Shape.exists_mem_neighbours_iff (hg : g.Shape) :
    (∃ u ∈ g.neighbours a, u.key = b.key) ↔ g.links a b ≠ [] := by
  show (∃ u ∈ (g.entry a).keys, u.key = b.key) ↔ _
  rw [links_eq]
  rcases (hg.filled_entry a).get?_eq_some_getD (t := b) with hnone | ⟨l, ls, hsome⟩
  · have hne := TableMap.get?_eq_none_iff.mp hnone
    rw [hnone]
    exact ⟨fun ⟨u, hu, hkey⟩ => absurd hkey (hne u hu), fun h => absurd rfl h⟩
  · obtain ⟨u, hu, hkey⟩ := TableMap.exists_of_get? hsome
    rw [hsome]
    exact ⟨fun _ => List.cons_ne_nil l ls, fun _ => ⟨u, List.mem_map_of_mem hu, hkey⟩⟩

/-- The tables of the graph are the tables that some link leads from. -/
theorem Shape.exists_mem_tables_iff (hg : g.Shape) :
    (∃ u ∈ g.tables, u.key = t.key) ↔ ∃ b, g.links t b ≠ [] := by
  constructor
  · rintro ⟨u, hu, hkey⟩
    obtain ⟨⟨u, neighbours⟩, hmem, rfl⟩ := List.mem_map.mp hu
    have hget : g.edges.get? t = some neighbours := TableMap.get?_of_mem hg.distinct hmem hkey
    obtain ⟨⟨b, ls⟩, hb⟩ := List.exists_mem_of_ne_nil _ (hg.filled t neighbours hget).2
    have hentry : g.neighbours t = neighbours.keys := by
      rw [JoinGraph.neighbours, hget, Option.getD_some]
    refine ⟨b, hg.exists_mem_neighbours_iff.mp ⟨b, ?_, rfl⟩⟩
    rw [hentry]
    exact List.mem_map_of_mem hb
  · rintro ⟨b, hb⟩
    obtain ⟨i, hi⟩ := exists_index?_of_links hb
    exact TableMap.index?_isSome_iff.mp (Option.isSome_iff_exists.mpr ⟨i, hi⟩)

/-- The numbered hops of a table are its links. -/
theorem WellFormed.mem_next_iff (hg : g.WellFormed) (hb : g.edges.index? b = some i)
    (hc : g.edges.index? c = some j) : j ∈ g.next i ↔ g.links b c ≠ [] := by
  obtain ⟨u, neighbours, hget, hub⟩ := (TableMap.index?_eq_some_iff hg.shape.distinct).mp hb
  have hentry : g.entry b = neighbours := by
    unfold entry
    rw [← TableMap.get?_congr hub, ← entry, entry_of_getElem? hg.shape hget]
  have hkeys : g.neighbours b = neighbours.keys := congrArg TableMap.keys hentry
  rw [← hg.shape.exists_mem_neighbours_iff, hkeys, next, hget]
  simp only [List.mem_filterMap]
  constructor
  · rintro ⟨v, hv, hvj⟩
    exact ⟨v, hv, key_eq_of_index? hg.shape hvj hc⟩
  · rintro ⟨v, hv, hvc⟩
    exact ⟨v, hv, by rw [index?_congr hvc, hc]⟩

theorem next_lt : ∀ i < g.edges.length, ∀ j ∈ g.next i, j < g.edges.length := by
  intro i hi j hj
  unfold next at hj
  rw [List.getElem?_eq_getElem hi] at hj
  obtain ⟨v, -, hv⟩ := List.mem_filterMap.mp hj
  exact index?_lt hv

theorem exists_of_mem_next (hg : g.Shape) (h : j ∈ g.next i) :
    ∃ b, g.edges.index? b = some i := by
  unfold next at h
  split at h
  · rename_i u neighbours hget
    exact ⟨u, index?_of_getElem? hg hget⟩
  · exact absurd h List.not_mem_nil

theorem WellFormed.way_of_hops (hg : g.WellFormed) (ho : g.edges.index? source = some o)
    (h : g.Hops source n b) : ∃ j, g.edges.index? b = some j ∧ Way g.next o n j := by
  induction h with
  | here h => exact ⟨o, by rw [← index?_congr h, ho], .here⟩
  | hop _ hlink ih =>
    obtain ⟨i, hi, hway⟩ := ih
    obtain ⟨j, hj⟩ := exists_index?_of_links (hg.links_symm hlink)
    exact ⟨j, hj, .hop hway ((hg.mem_next_iff hi hj).mpr hlink)⟩

theorem WellFormed.hops_of_way (hg : g.WellFormed) (ho : g.edges.index? source = some o)
    (h : Way g.next o n j) : ∀ b, g.edges.index? b = some j → g.Hops source n b := by
  induction h with
  | here => exact fun b hb => .here (key_eq_of_index? hg.shape ho hb)
  | hop _ hw ih =>
    intro c hc
    obtain ⟨b, hb⟩ := exists_of_mem_next hg.shape hw
    exact .hop (ih b hb) ((hg.mem_next_iff hb hc).mp hw)

/-- **Hops between tables are hops between their numbers.** -/
theorem WellFormed.hops_iff_way (hg : g.WellFormed) (ho : g.edges.index? source = some o)
    (hb : g.edges.index? b = some j) : g.Hops source n b ↔ Way g.next o n j := by
  constructor
  · intro h
    obtain ⟨k, hk, hway⟩ := hg.way_of_hops ho h
    rw [hb] at hk
    exact (Option.some.inj hk) ▸ hway
  · exact fun h => hg.hops_of_way ho h b hb

/-- From a table that is not in the graph nothing but itself is reached. -/
theorem key_eq_of_hops (ho : g.edges.index? source = none) (h : g.Hops source n b) :
    n = 0 ∧ source.key = b.key := by
  induction h with
  | here h => exact ⟨rfl, h⟩
  | hop _ hlink ih =>
    obtain ⟨i, hi⟩ := exists_index?_of_links hlink
    rw [← index?_congr ih.2, ho] at hi
    exact absurd hi (by simp)

theorem WellFormed.distance_iff (hg : g.WellFormed) (ho : g.edges.index? source = some o)
    (hb : g.edges.index? b = some j) :
    (search g.edges.length g.next o).distance j = some n ↔ IsLeast {m | g.Hops source m b} n := by
  have hset : {m | g.Hops source m b} = {m | Way g.next o m j} :=
    Set.ext fun _ => hg.hops_iff_way ho hb
  rw [hset, search_distance_iff (index?_lt ho) next_lt]

/-! ## The tree -/

theorem parent?_eq_some_iff {previous : Nat → Option Nat} : g.parent? previous t = some p ↔
    ∃ i j neighbours, g.edges.index? t = some i ∧ previous i = some j ∧
      g.edges[j]? = some (p, neighbours) := by
  simp only [parent?, Option.bind_eq_bind, Option.bind_eq_some_iff, Option.pure_def,
    Option.some.injEq, Prod.exists]
  constructor
  · rintro ⟨i, hi, j, hj, u, neighbours, hget, rfl⟩
    exact ⟨i, j, neighbours, hi, hj, hget⟩
  · rintro ⟨i, j, neighbours, hi, hj, hget⟩
    exact ⟨i, hi, j, hj, p, neighbours, hget, rfl⟩

/-- **The table before another is one hop nearer to the source**, along some link. -/
theorem Precedes.distance (hg : g.WellFormed) (h : g.Precedes source p t) :
    ∃ n, IsLeast {m | g.Hops source m p} n ∧ IsLeast {m | g.Hops source m t} (n + 1) ∧
      g.links p t ≠ [] := by
  obtain ⟨i, j, neighbours, hi, hj, hget⟩ := parent?_eq_some_iff.mp h
  have hp := index?_of_getElem? hg.shape hget
  unfold pathTree at hj
  cases ho : g.edges.index? source with
  | none =>
    rw [ho] at hj
    exact absurd hj (by simp)
  | some o =>
    rw [ho] at hj
    obtain ⟨n, hn, hsucc, hmem⟩ := search_previous (index?_lt ho) next_lt hj
    exact ⟨n, (hg.distance_iff ho hp).mp hn, (hg.distance_iff ho hi).mp hsucc,
      (hg.mem_next_iff hp hi).mp hmem⟩

/-- **A connected table has a table before it**, unless it is the source. -/
theorem exists_precedes (hg : g.WellFormed) (h : g.Connected source t)
    (hne : source.key ≠ t.key) : ∃ p, g.Precedes source p t := by
  obtain ⟨n, hn⟩ := h
  cases ho : g.edges.index? source with
  | none => exact absurd (key_eq_of_hops ho hn).2 hne
  | some o =>
    obtain ⟨i, hi, hway⟩ := hg.way_of_hops ho hn
    have hio : i ≠ o := by
      rintro rfl
      exact hne (key_eq_of_index? hg.shape ho hi)
    obtain ⟨d, hd⟩ := search_distance_of_way (index?_lt ho) next_lt hway
    have hs := search_invariant (index?_lt ho) (next_lt (g := g))
    obtain ⟨j, hj⟩ := hs.rooted i d hd hio
    have hjlt : j < g.edges.length := by
      obtain ⟨x, hx, -⟩ := search_previous (index?_lt ho) next_lt hj
      exact hs.bounded j x hx
    refine ⟨g.edges[j].1, parent?_eq_some_iff.mpr ⟨i, j, g.edges[j].2, hi, ?_, ?_⟩⟩
    · unfold pathTree
      rw [ho]
      exact hj
    · exact List.getElem?_eq_getElem hjlt

theorem not_precedes_source (hg : g.WellFormed) (h : source.key = t.key) :
    ¬ g.Precedes source p t := by
  intro hp
  obtain ⟨n, -, hn, -⟩ := hp.distance hg
  exact absurd ((isLeast_zero h).unique hn) (by omega)

theorem Precedes.connected (hg : g.WellFormed) (h : g.Precedes source p t) :
    g.Connected source p ∧ g.Connected source t := by
  obtain ⟨n, hp, ht, -⟩ := h.distance hg
  exact ⟨⟨n, hp.1⟩, ⟨n + 1, ht.1⟩⟩

theorem Precedes.unique {q : Table} (hp : g.Precedes source p t) (hq : g.Precedes source q t) :
    p = q := Option.some.inj (hp.symm.trans hq)

/-- A connected table has a distance, which the number of tables bounds. -/
theorem exists_distance (hg : g.WellFormed) (h : g.Connected source t) :
    ∃ n, IsLeast {m | g.Hops source m t} n ∧ n ≤ g.edges.length := by
  obtain ⟨n, hn⟩ := h
  cases ho : g.edges.index? source with
  | none => exact ⟨0, isLeast_zero (key_eq_of_hops ho hn).2, Nat.zero_le _⟩
  | some o =>
    obtain ⟨i, hi, hway⟩ := hg.way_of_hops ho hn
    obtain ⟨d, hd⟩ := search_distance_of_way (index?_lt ho) next_lt hway
    exact ⟨d, (hg.distance_iff ho hi).mp hd,
      Nat.le_of_lt (search_distance_lt (index?_lt ho) next_lt hd)⟩

/-- A path only goes nearer to the source. -/
theorem OnPath.distance_le (hg : g.WellFormed) (h : g.OnPath source t c)
    (hn : IsLeast {m | g.Hops source m t} n) : ∃ m ≤ n, IsLeast {m | g.Hops source m c} m := by
  induction h with
  | refl => exact ⟨n, le_refl _, hn⟩
  | tail _ hp ih =>
    obtain ⟨m, hmn, hm⟩ := ih
    obtain ⟨k, hk, hsucc, -⟩ := hp.distance hg
    have := hm.unique hsucc
    exact ⟨k, by omega, hk⟩

end SqlBuilder.JoinGraph
