import SqlBuilder.Proofs.JoinGraph.Edits
import SqlBuilder.Proofs.JoinGraph.Targets

/-!
# Tables with the same key in a join graph

A graph looks tables up by their keys and nothing else of them. So whichever of two tables with the
same key a question is asked about, a link is removed from, or joins are inferred for, the answer is
the same (`SameAnswers.of_key_eq`). What comes back may name either table: joins are therefore
compared by the keys of their targets and their conditions (`Join.entry`), and a graph that was
added to by its links.

`inferJoins_congr` is proved along the recursions of inference. One step of the walk looks at keys
(`arrived_congr`, `parent?_congr`, `links_congr`), and the names in an error are read off keys too.
-/

namespace SqlBuilder

/-- The name by which a table of this key is referred to. -/
def Table.Key.exposedName (k : Table.Key) : String := k.alias?.getD k.name

theorem Table.exposedName_congr {a b : Table} (h : a.key = b.key) :
    a.exposedName = b.exposedName :=
  congrArg Key.exposedName h

namespace TableMap

variable {α : Type} {m : TableMap α} {a b : Table}

theorem beq_congr (h : a.key = b.key) (t : Table) : (t == a) = (t == b) := by
  rw [Bool.eq_iff_iff, Table.beq_iff, Table.beq_iff, h]

theorem erase_congr (h : a.key = b.key) : m.erase a = m.erase b := by
  unfold erase
  simp only [beq_congr h]

/-- An entry that is there keeps its table, whichever table it is changed at. -/
theorem alter_congr {f : Option α → α} (h : a.key = b.key) (ha : m.get? a ≠ none) :
    m.alter f a = m.alter f b := by
  induction m with
  | nil => exact absurd get?_nil ha
  | cons entry m ih =>
    unfold alter
    by_cases hkey : entry.1.key = a.key
    · rw [if_pos (Table.beq_iff.mpr hkey), if_pos (Table.beq_iff.mpr (hkey.trans h))]
    · rw [get?_cons, if_neg hkey] at ha
      rw [← beq_congr h, ih ha]

end TableMap

namespace JoinGraph

variable {g : JoinGraph} {a b c d p source source' t t' target target' : Table} {x x' y y' : Column}
  {previous : Nat → Option Nat} {joined joined' ts us : List Table} {chain chain' : List Join}
  {fuel : Nat}

/-- The same tables in the same order, linked on columns of the same names. -/
structure SameNames (g g' : JoinGraph) : Prop where
  tables : g.tables.map Table.key = g'.tables.map Table.key
  linked : ∀ a b names, g.Linked a b names ↔ g'.Linked a b names

/-- Whatever a graph is asked or told about one of the tables, it answers and does as for the
other. -/
structure SameAnswers (a b : Table) : Prop where
  neighbours : ∀ g : JoinGraph, g.neighbours a = g.neighbours b
  links : ∀ (g : JoinGraph) c, g.links a c = g.links b c ∧ g.links c a = g.links c b
  eraseTable : ∀ g : JoinGraph, g.eraseTable a = g.eraseTable b
  /-- A link may name a column of either table, as its source or as its target. -/
  unlink : ∀ (g : JoinGraph) (x x' y : Column), x.table? = some a → x'.table? = some b →
    x.name = x'.name → g.unlinkColumns x y = g.unlinkColumns x' y ∧
      g.unlinkColumns y x = g.unlinkColumns y x'
  link : ∀ (g : JoinGraph) (x x' y : Column) c, x.name = x'.name →
    SameNames (g.connect a x c y) (g.connect b x' c y) ∧
      SameNames (g.connect c y a x) (g.connect c y b x')
  joinsFrom : ∀ (g : JoinGraph) ts, (g.inferJoins a ts).map (List.map Join.entry) =
    (g.inferJoins b ts).map (List.map Join.entry)
  joinsTo : ∀ (g : JoinGraph) source before after,
    (g.inferJoins source (before ++ a :: after)).map (List.map Join.entry) =
      (g.inferJoins source (before ++ b :: after)).map (List.map Join.entry)

/-! ## Adding -/

theorem tables_insertLink : (g.insertLink a x b y).tables.map Table.key =
    if a.key ∈ g.tables.map Table.key then g.tables.map Table.key
    else g.tables.map Table.key ++ [a.key] := by
  have hsome : (g.edges.get? a).isSome = true ↔ a.key ∈ g.tables.map Table.key := by
    rw [← not_iff_not, Bool.not_eq_true, Option.isSome_eq_false_iff, Option.isNone_iff_eq_none,
      TableMap.get?_eq_none_iff, List.mem_map, tables]
    push Not
    rfl
  have hkeys := TableMap.keys_alter (m := g.edges)
    (fun neighbours => (neighbours.getD []).alter (Link.addTo ⟨x, y⟩) b) a
  rw [insertLink, tables, hkeys]
  by_cases hmem : a.key ∈ g.tables.map Table.key
  · rw [if_pos (hsome.mpr hmem), if_pos hmem]
    rfl
  · rw [if_neg (fun h => hmem (hsome.mp h)), if_neg hmem, List.map_append]
    rfl

theorem SameNames.insertLink {g' : JoinGraph} (h : g.SameNames g') (ha : a.key = c.key)
    (hb : b.key = d.key) (hx : x.name = x'.name) (hy : y.name = y'.name) :
    (g.insertLink a x b y).SameNames (g'.insertLink c x' d y') where
  tables := by rw [tables_insertLink, tables_insertLink, h.tables, ha]
  linked u v names := by
    rw [linked_insertLink, linked_insertLink, h.linked, ha, hb, hx, hy]

theorem connect_congr (ha : a.key = c.key) (hb : b.key = d.key) (hx : x.name = x'.name)
    (hy : y.name = y'.name) : (g.connect a x b y).SameNames (g.connect c x' d y') :=
  (SameNames.insertLink ⟨rfl, fun _ _ _ => Iff.rfl⟩ ha hb hx hy).insertLink hb ha hy hx

/-! ## Removing -/

theorem dropLink_congr {neighbours : TableMap (List Link)} (h : b.key = d.key)
    (hx : x.name = x'.name) (hy : y.name = y'.name) :
    dropLink b x y neighbours = dropLink d x' y' neighbours := by
  have hnames (l : Link) : l.hasNames x y = l.hasNames x' y' := by
    rw [Link.hasNames, Link.hasNames, hx, hy]
  unfold dropLink
  rw [TableMap.get?_congr h]
  cases hget : neighbours.get? d with
  | none => rfl
  | some links =>
    simp only [hnames, TableMap.erase_congr h]
    rw [TableMap.alter_congr h (by rw [TableMap.get?_congr h, hget]; exact Option.some_ne_none _)]

theorem eraseLink_congr (ha : a.key = c.key) (hb : b.key = d.key) (hx : x.name = x'.name)
    (hy : y.name = y'.name) : g.eraseLink a x b y = g.eraseLink c x' d y' := by
  unfold eraseLink
  rw [TableMap.get?_congr ha]
  cases hget : g.edges.get? c with
  | none => rfl
  | some neighbours =>
    simp only [dropLink_congr hb hx hy, TableMap.erase_congr ha]
    rw [TableMap.alter_congr ha (by rw [TableMap.get?_congr ha, hget]; exact Option.some_ne_none _)]

theorem unlinkColumns_congr (hx : x.table? = some a) (hx' : x'.table? = some b)
    (h : a.key = b.key) (hname : x.name = x'.name) :
    g.unlinkColumns x y = g.unlinkColumns x' y ∧ g.unlinkColumns y x = g.unlinkColumns y x' := by
  have hdisconnect (c : Table) : g.disconnect a x c y = g.disconnect b x' c y ∧
      g.disconnect c y a x = g.disconnect c y b x' := by
    unfold disconnect
    constructor
    · rw [eraseLink_congr h rfl hname rfl, eraseLink_congr rfl h rfl hname]
    · rw [eraseLink_congr rfl h rfl hname, eraseLink_congr h rfl hname rfl]
  cases hy : y.table? with
  | none =>
    have herror : y.requireTable = .error (.unbound y) := by
      rw [Column.requireTable, hy]
      rfl
    unfold unlinkColumns
    rw [requireTable_of_some hx, requireTable_of_some hx', herror]
    exact ⟨rfl, rfl⟩
  | some c =>
    rw [unlinkColumns_of_some hx hy, unlinkColumns_of_some hx' hy, unlinkColumns_of_some hy hx,
      unlinkColumns_of_some hy hx', (hdisconnect c).1, (hdisconnect c).2]
    exact ⟨rfl, rfl⟩

theorem eraseTable_congr (h : a.key = b.key) : g.eraseTable a = g.eraseTable b := by
  unfold eraseTable
  simp only [TableMap.erase_congr h]

/-! ## Inference -/

theorem arrived_congr (hs : source.key = source'.key) (ht : t.key = t'.key)
    (hjoined : joined.map Table.key = joined'.map Table.key) :
    (t == source || joined.any (· == t)) = (t' == source' || joined'.any (· == t')) := by
  have hany (ts : List Table) (u : Table) :
      ts.any (· == u) = (ts.map Table.key).any fun k => decide (k = u.key) := by
    rw [List.any_map]
    rfl
  have hsource : (t == source) = (t' == source') := by
    rw [Bool.eq_iff_iff, Table.beq_iff, Table.beq_iff, hs, ht]
  rw [hsource, hany, hany, hjoined, ht]

theorem parent?_congr (h : t.key = t'.key) : g.parent? previous t = g.parent? previous t' := by
  rw [parent?, parent?, index?_congr h]

theorem pathTree_congr (h : source.key = source'.key) : g.pathTree source = g.pathTree source' := by
  rw [pathTree, pathTree, index?_congr h]

theorem targetKeys_congr (h : chain.map Join.entry = chain'.map Join.entry) :
    (chain.map Join.target).map Table.key = (chain'.map Join.target).map Table.key := by
  have hkeys (items : List Join) : (items.map Join.target).map Table.key =
      (items.map Join.entry).map Prod.fst := by
    rw [List.map_map, List.map_map]
    rfl
  rw [hkeys, hkeys, h]

theorem exposedNames_congr (h : chain.map Join.entry = chain'.map Join.entry) :
    chain.map (fun item => item.target.exposedName) =
      chain'.map fun item => item.target.exposedName := by
  have hnames (items : List Join) : items.map (fun item => item.target.exposedName) =
      ((items.map Join.target).map Table.key).map Table.Key.exposedName := by
    rw [List.map_map, List.map_map]
    rfl
  rw [hnames, hnames, targetKeys_congr h]

theorem walk_of_no_fuel (h : (t == source || joined.any (· == t)) = false) :
    g.walk previous source target 0 joined t chain =
      .error (.unreachable source.exposedName target.exposedName t.exposedName
        (chain.reverse.map fun item => item.target.exposedName)) := by
  unfold walk
  rw [h]
  cases g.parent? previous t <;> rfl

theorem lost_congr (hs : source.key = source'.key) (htarget : target.key = target'.key)
    (ht : t.key = t'.key) (hchain : chain.map Join.entry = chain'.map Join.entry) :
    JoinError.unreachable source.exposedName target.exposedName t.exposedName
        (chain.reverse.map fun item => item.target.exposedName) =
      .unreachable source'.exposedName target'.exposedName t'.exposedName
        (chain'.reverse.map fun item => item.target.exposedName) := by
  rw [Table.exposedName_congr hs, Table.exposedName_congr htarget, Table.exposedName_congr ht,
    List.map_reverse, List.map_reverse, exposedNames_congr hchain]

/-- The walks back from two tables with the same key bring the same tables in. -/
theorem walk_congr (hs : source.key = source'.key) (htarget : target.key = target'.key)
    (ht : t.key = t'.key) (hjoined : joined.map Table.key = joined'.map Table.key)
    (hchain : chain.map Join.entry = chain'.map Join.entry) :
    (g.walk previous source target fuel joined t chain).map (List.map Join.entry) =
      (g.walk previous source' target' fuel joined' t' chain').map (List.map Join.entry) := by
  induction fuel generalizing joined joined' t t' chain chain' with
  | zero =>
    have harrived := arrived_congr hs ht hjoined
    cases h : t' == source' || joined'.any (· == t') with
    | true =>
      rw [walk_of_arrived (harrived.trans h), walk_of_arrived h]
      exact congrArg Except.ok hchain
    | false =>
      rw [walk_of_no_fuel (harrived.trans h), walk_of_no_fuel h, lost_congr hs htarget ht hchain]
  | succ fuel ih =>
    have harrived := arrived_congr hs ht hjoined
    have hparent : g.parent? previous t = g.parent? previous t' := parent?_congr ht
    cases h : t' == source' || joined'.any (· == t') with
    | true =>
      rw [walk_of_arrived (harrived.trans h), walk_of_arrived h]
      exact congrArg Except.ok hchain
    | false =>
      cases hp : g.parent? previous t' with
      | none =>
        rw [walk_of_lost (harrived.trans h) (hparent.trans hp), walk_of_lost h hp,
          lost_congr hs htarget ht hchain]
      | some p =>
        have hlinks : g.links p t = g.links p t' := links_congr rfl ht
        by_cases hone : ∃ l, g.links p t' = [l]
        · obtain ⟨l, hl⟩ := hone
          rw [walk_of_link (harrived.trans h) (hparent.trans hp) (hlinks.trans hl),
            walk_of_link h hp hl]
          refine ih rfl ?_ ?_
          · rw [List.map_cons, List.map_cons, ht, hjoined]
          · rw [List.map_cons, List.map_cons, hchain, Join.entry, Join.entry, ht]
        · have hmany : ∀ l, g.links p t' ≠ [l] := fun l hl => hone ⟨l, hl⟩
          rw [walk_of_links (harrived.trans h) (hparent.trans hp) (hlinks ▸ hmany),
            walk_of_links h hp hmany, hlinks, Table.exposedName_congr ht]

/-- Results with equal images are errors alike or values with equal images. -/
theorem cases_of_map_eq {α β ε : Type} {f : α → β} {r r' : Except ε α} (h : r.map f = r'.map f) :
    (∃ e, r = .error e ∧ r' = .error e) ∨ ∃ x y, r = .ok x ∧ r' = .ok y ∧ f x = f y := by
  cases r with
  | error e =>
    cases r' with
    | error e' => exact .inl ⟨e, rfl, congrArg Except.error (Except.error.inj h).symm⟩
    | ok y => exact nomatch h
  | ok x =>
    cases r' with
    | error e' => exact nomatch h
    | ok y => exact .inr ⟨x, y, rfl, rfl, Except.ok.inj h⟩

theorem resolve_congr (hs : source.key = source'.key)
    (hjoined : joined.map Table.key = joined'.map Table.key)
    (hts : ts.map Table.key = us.map Table.key) :
    (g.resolve previous source joined ts).map (List.map Join.entry) =
      (g.resolve previous source' joined' us).map (List.map Join.entry) := by
  induction ts generalizing joined joined' us with
  | nil =>
    obtain rfl := List.map_eq_nil_iff.mp hts.symm
    rfl
  | cons t ts ih =>
    cases us with
    | nil => exact absurd hts (List.cons_ne_nil _ _)
    | cons u us =>
      obtain ⟨ht, hts⟩ := List.cons.inj hts
      have hwalk :
          (g.walk previous source t g.edges.length joined t []).map (List.map Join.entry) =
            (g.walk previous source' u g.edges.length joined' u []).map (List.map Join.entry) :=
        walk_congr hs ht ht hjoined rfl
      unfold resolve
      rcases cases_of_map_eq hwalk with ⟨e, he, he'⟩ | ⟨first, first', hfirst, hfirst', hentry⟩
      · rw [he, he']
        rfl
      · have htargets : (joined ++ first.map Join.target).map Table.key =
            (joined' ++ first'.map Join.target).map Table.key := by
          rw [List.map_append, List.map_append, hjoined, targetKeys_congr hentry]
        rw [hfirst, hfirst']
        change ((g.resolve previous source (joined ++ first.map Join.target) ts >>= fun rest =>
          pure (first ++ rest)).map _ : Except JoinError _) = ((g.resolve previous source'
            (joined' ++ first'.map Join.target) us >>= fun rest => pure (first' ++ rest)).map _)
        rcases cases_of_map_eq (ih htargets hts) with
          ⟨e, he, he'⟩ | ⟨rest, rest', hrest, hrest', hentries⟩
        · rw [he, he']
          rfl
        · rw [hrest, hrest']
          refine congrArg Except.ok ?_
          rw [List.map_append, List.map_append, hentry, hentries]

/-- **Inference asks for the keys of the source and the targets only.** -/
theorem inferJoins_congr (hs : source.key = source'.key)
    (hts : ts.map Table.key = us.map Table.key) :
    (g.inferJoins source ts).map (List.map Join.entry) =
      (g.inferJoins source' us).map (List.map Join.entry) := by
  have hempty : ts.isEmpty = us.isEmpty := by
    rw [← List.isEmpty_map (f := Table.key), hts, List.isEmpty_map]
  unfold inferJoins
  rw [hempty, pathTree_congr hs]
  split_ifs
  · rfl
  · exact resolve_congr hs rfl hts

/-- **Tables with the same key are one to a graph.** -/
theorem SameAnswers.of_key_eq (h : a.key = b.key) : SameAnswers a b where
  neighbours g := by rw [JoinGraph.neighbours, JoinGraph.neighbours, TableMap.get?_congr h]
  links g c := ⟨links_congr h rfl, links_congr rfl h⟩
  eraseTable g := eraseTable_congr h
  unlink g x x' y hx hx' hname := unlinkColumns_congr hx hx' h hname
  link g x x' y c hname := ⟨connect_congr h rfl hname rfl, connect_congr rfl h rfl hname⟩
  joinsFrom g ts := inferJoins_congr h rfl
  joinsTo g source before after := inferJoins_congr rfl (by simp [h])

end JoinGraph
end SqlBuilder
