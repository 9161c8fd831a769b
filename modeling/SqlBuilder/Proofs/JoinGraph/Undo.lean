import SqlBuilder.Proofs.JoinGraph.Edits

/-!
# Taking back a link

A link that is added and removed again leaves the graph as it was, not only with the same links: the
tables, the neighbours of each and the links between any two stand in the old order, and so the
paths that are found are the old ones.

Each direction is one entry of the map, and removing it narrows that entry (`TableMap.narrow`). One
direction is taken back by itself (`Shape.eraseLink_insertLink`), because what was added stands
last and because an entry that was there before is never empty. The two directions may meet in one
entry, or be the same one, so which is taken back first has to make no difference
(`Shape.eraseLink_comm`). `link_undone` states both, and that a link that is there already is not
added.
-/

namespace SqlBuilder.JoinGraph

variable {g : JoinGraph} {a b c d : Table} {x y z w : Column} {neighbours : TableMap (List Link)}

/-! ## Removals as narrowings -/

theorem dropLink_eq_narrow (b : Table) (x y : Column) (neighbours : TableMap (List Link)) :
    dropLink b x y neighbours =
      neighbours.narrow (·.filter fun link => !link.hasNames x y) b := by
  unfold dropLink TableMap.narrow
  cases neighbours.get? b <;> rfl

theorem eraseLink_eq_narrow (g : JoinGraph) (a : Table) (x : Column) (b : Table) (y : Column) :
    g.eraseLink a x b y = ⟨g.edges.narrow (dropLink b x y) a⟩ := by
  unfold eraseLink TableMap.narrow
  cases g.edges.get? a with
  | none => rfl
  | some neighbours =>
    simp only
    split_ifs <;> rfl

/-! ## Links that are not there -/

theorem not_linked_iff : ¬ g.Linked a b (x.name, y.name) ↔
    ∀ l ∈ ((g.entry a).get? b).getD [], l.hasNames x y = false := by
  rw [← links_eq]
  simp only [Linked, not_exists, not_and, Bool.eq_false_iff, ne_eq, Link.hasNames_iff]

theorem Link.filter_of_absent {links : List Link} (h : ∀ l ∈ links, l.hasNames x y = false) :
    (links.filter fun link => !link.hasNames x y) = links :=
  List.filter_eq_self.mpr fun l hl => by rw [h l hl, Bool.not_false]

/-- A link that is not there goes to the end of the links. -/
theorem Link.addTo_of_absent {links : List Link} (h : ∀ l ∈ links, l.hasNames x y = false) :
    Link.addTo ⟨x, y⟩ (some links) = links ++ [⟨x, y⟩] := by
  have hany : ¬ links.any (·.hasNames x y) = true := by
    rw [List.any_eq_true]
    rintro ⟨l, hl, hnames⟩
    exact Bool.false_ne_true ((h l hl).symm.trans hnames)
  rw [Link.addTo, Option.getD_some, if_neg hany]

theorem Filled.dropLink_of_absent (hn : Filled neighbours)
    (h : ∀ l ∈ (neighbours.get? b).getD [], l.hasNames x y = false) :
    JoinGraph.dropLink b x y neighbours = neighbours := by
  rw [dropLink_eq_narrow]
  refine TableMap.narrow_of_get? fun links hlinks => ⟨?_, ?_⟩
  · rw [hlinks] at h
    exact Link.filter_of_absent h
  · rintro rfl
    exact hn.2 b hlinks

theorem Shape.eraseLink_of_not_linked (hg : g.Shape) (h : ¬ g.Linked a b (x.name, y.name)) :
    g.eraseLink a x b y = g := by
  rw [eraseLink_eq_narrow, TableMap.narrow_of_get?]
  intro neighbours hget
  obtain ⟨hfilled, hne⟩ := hg.filled a neighbours hget
  refine ⟨hfilled.dropLink_of_absent ?_, hne⟩
  rw [not_linked_iff, entry, hget] at h
  exact h

/-! ## One direction -/

/-- Adding a direction that is there changes nothing. -/
theorem insertLink_of_linked (h : g.Linked a b (x.name, y.name)) : g.insertLink a x b y = g := by
  obtain ⟨l, hl, hnames⟩ := h
  unfold links at hl
  obtain ⟨links, hlinks, hmem⟩ : ∃ links, (g.edges.get? a).bind (·.get? b) = some links ∧
      l ∈ links := by
    cases hget : (g.edges.get? a).bind (·.get? b) with
    | none => simp [hget] at hl
    | some links => exact ⟨links, rfl, by simpa [hget] using hl⟩
  obtain ⟨neighbours, ha, hb⟩ := Option.bind_eq_some_iff.mp hlinks
  have hthere : Link.addTo ⟨x, y⟩ (some links) = links := by
    rw [Link.addTo, Option.getD_some,
      if_pos (List.any_eq_true.mpr ⟨l, hmem, Link.hasNames_iff.mpr hnames⟩)]
  unfold insertLink
  rw [TableMap.alter_of_get? ha]
  exact TableMap.alter_of_get? hb hthere

theorem Filled.dropLink_addLink (hn : Filled neighbours)
    (h : ∀ l ∈ (neighbours.get? b).getD [], l.hasNames x y = false) :
    JoinGraph.dropLink b x y (neighbours.alter (Link.addTo ⟨x, y⟩) b) = neighbours := by
  have hself : (⟨x, y⟩ : Link).hasNames x y = true := Link.hasNames_iff.mpr rfl
  rw [dropLink_eq_narrow]
  refine TableMap.narrow_alter (fun links hlinks => ⟨?_, ?_⟩) fun _ => ?_
  · rw [hlinks, Option.getD_some] at h
    rw [Link.addTo_of_absent h, List.filter_append, Link.filter_of_absent h]
    simp [hself]
  · rintro rfl
    exact hn.2 b hlinks
  · simp [Link.addTo, hself]

/-- **One direction of a new link is taken back by removing it.** -/
theorem Shape.eraseLink_insertLink (hg : g.Shape) (h : ¬ g.Linked a b (x.name, y.name)) :
    (g.insertLink a x b y).eraseLink a x b y = g := by
  have habsent := not_linked_iff.mp h
  rw [eraseLink_eq_narrow, JoinGraph.insertLink, TableMap.narrow_alter]
  · intro neighbours hget
    obtain ⟨hfilled, hne⟩ := hg.filled a neighbours hget
    rw [entry, hget] at habsent
    exact ⟨hfilled.dropLink_addLink habsent, hne⟩
  · exact fun _ => Filled.nil.dropLink_addLink fun l hl => absurd hl List.not_mem_nil

/-! ## Two directions -/

theorem Filled.dropLink_comm (hn : Filled neighbours) :
    JoinGraph.dropLink b x y (JoinGraph.dropLink d z w neighbours) =
      JoinGraph.dropLink d z w (JoinGraph.dropLink b x y neighbours) := by
  simp only [dropLink_eq_narrow]
  refine TableMap.narrow_comm hn.1 rfl rfl fun entry _ => ?_
  rw [List.filter_filter, List.filter_filter]
  exact List.filter_congr fun l _ => Bool.and_comm _ _

/-- **Directions can be removed in any order**, also from one entry. -/
theorem Shape.eraseLink_comm (hg : g.Shape) :
    (g.eraseLink a x b y).eraseLink c z d w = (g.eraseLink c z d w).eraseLink a x b y := by
  simp only [eraseLink_eq_narrow]
  rw [TableMap.narrow_comm hg.distinct rfl rfl]
  rintro ⟨t, neighbours⟩ hentry
  exact Filled.dropLink_comm (hg.filled t neighbours (hg.entry_of_mem hentry)).1

theorem Shape.disconnect_comm (hg : g.Shape) : g.disconnect a x b y = g.disconnect b y a x :=
  hg.eraseLink_comm

theorem WellFormed.connect_of_linked (hg : g.WellFormed) (h : g.Linked a b (x.name, y.name)) :
    g.connect a x b y = g := by
  rw [JoinGraph.connect, insertLink_of_linked h, insertLink_of_linked (hg.mirrored a b _ _ h)]

/-- **A new link is taken back by removing it.** -/
theorem WellFormed.disconnect_connect (hg : g.WellFormed) (h : ¬ g.Linked a b (x.name, y.name)) :
    (g.connect a x b y).disconnect a x b y = g := by
  have hback : ¬ g.Linked b a (y.name, x.name) := mt (hg.mirrored b a _ _) h
  have hshape : (g.insertLink a x b y).Shape := hg.shape.insertLink
  unfold JoinGraph.connect
  by_cases hsame : (g.insertLink a x b y).Linked b a (y.name, x.name)
  · -- a column linked with itself: the way back is the way forth
    rw [insertLink_of_linked hsame, JoinGraph.disconnect, hg.shape.eraseLink_insertLink h,
      hg.shape.eraseLink_of_not_linked hback]
  · rw [hshape.insertLink.disconnect_comm, JoinGraph.disconnect, hshape.eraseLink_insertLink hsame,
      hg.shape.eraseLink_insertLink h]

/-! ## Links between columns -/

/-- **A link that is added and removed leaves no trace**, in any reachable graph and through any two
columns that have tables. Removing the link again, from either of its columns, gives the graph back
as it was, with the old order of everything in it. A link that is there in some orientation is not
added again. And it makes no difference from which of its columns a link is removed. -/
theorem link_undone (hg : g.Reachable) (hx : x.table? = some a) (hy : y.table? = some b) :
    (¬ g.Linked a b (x.name, y.name) →
      ∃ g', g.linkColumns x y = .ok g' ∧
        g'.unlinkColumns x y = .ok g ∧ g'.unlinkColumns y x = .ok g) ∧
    (g.Linked a b (x.name, y.name) ∨ g.Linked b a (y.name, x.name) →
      g.linkColumns x y = .ok g ∧ g.linkColumns y x = .ok g) ∧
    ∃ g', g.unlinkColumns x y = .ok g' ∧ g.unlinkColumns y x = .ok g' := by
  have hwf := hg.wellFormed
  refine ⟨fun h => ?_, fun h => ?_, g.disconnect a x b y, unlinkColumns_of_some hx hy, ?_⟩
  · have hundone := hwf.disconnect_connect h
    refine ⟨g.connect a x b y, linkColumns_of_some hx hy, ?_, ?_⟩
    · rw [unlinkColumns_of_some hx hy, hundone]
    · rw [unlinkColumns_of_some hy hx, (hwf.connect hx hy).shape.disconnect_comm, hundone]
  · have hforth : g.Linked a b (x.name, y.name) := h.elim id (hwf.mirrored b a _ _)
    rw [linkColumns_of_some hx hy, linkColumns_of_some hy hx, hwf.connect_of_linked hforth,
      hwf.connect_of_linked (hwf.mirrored a b _ _ hforth)]
    exact ⟨rfl, rfl⟩
  · rw [unlinkColumns_of_some hy hx, hwf.shape.disconnect_comm]

/-- Two columns of one table, so both directions are in one entry, beside a neighbour that stays. -/
theorem link_undone_self_reference :
    let people := Table.ofName "people"
    let x := people.column "id" .any
    let y := people.column "boss" .any
    let g := ofForeignKeys [⟨"pets", "owner", "people", "id"⟩]
    g.Reachable ∧ x.table? = some people ∧ y.table? = some people ∧
      ¬ g.Linked people people (x.name, y.name) ∧
      ∃ g', g.linkColumns x y = .ok g' ∧
        (g'.neighbours people).map Table.name = ["pets", "people"] ∧
        (g'.links people people).map Link.names = [("id", "boss"), ("boss", "id")] ∧
        g'.unlinkColumns x y = .ok g ∧ g'.unlinkColumns y x = .ok g ∧
        g'.linkColumns y x = .ok g' := by
  intro people x y g
  have hreachable : g.Reachable := .ofForeignKeys _
  have hnew : ¬ g.Linked people people (x.name, y.name) := by
    rw [linked_iff]
    decide +kernel
  obtain ⟨g', hok, hxy, hyx⟩ := (link_undone hreachable (x := x) (y := y) rfl rfl).1 hnew
  have hg' : g' = g.connect people x people y :=
    Except.ok.inj (hok.symm.trans (linkColumns_of_some rfl rfl))
  have hthere : g'.Linked people people (x.name, y.name) := by
    rw [linked_iff, hg']
    decide +kernel
  have hagain := (link_undone (.linkColumns x y hreachable hok) rfl rfl).2.1 (.inl hthere)
  refine ⟨hreachable, rfl, rfl, hnew, g', hok, ?_, ?_, hxy, hyx, hagain.2⟩
  · rw [hg']
    decide +kernel
  · rw [hg']
    decide +kernel

end SqlBuilder.JoinGraph
