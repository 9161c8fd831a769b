import SqlBuilder.Proofs.JoinGraph.Edits

/-!
# Join graphs as lists of edges

What a join graph means, without its maps: an `EdgeList` holds the edges as they were declared, in
order, each pair of columns once. Declaring appends an edge that is not there in either
orientation, retracting takes it out in either orientation, and isolating a table takes out every
edge that touches it. `between` reads off the links from one table to another: every edge between
the two, turned to lead that way; an edge of a table with itself is seen both ways, as declared
first.

`Represents` ties a graph to a list. Every change keeps the tie (`Represents.edit`), because both
directions of a link are stored or neither is, and so `edits_represent` holds after any changes:
links, tables, neighbours and emptiness of the graph are those of the list.
-/

namespace SqlBuilder

/-! ## Edges -/

/-- The table and the name of a column, all that tells the ends of edges apart. -/
def Column.place (c : Column) : Option Table.Key × String := (c.table?.map Table.key, c.name)

namespace Link

variable {k l : Link} {a b t : Table}

/-- The same columns, seen from the other table. -/
def flip (l : Link) : Link := ⟨l.target, l.source⟩

def ends (l : Link) : (Option Table.Key × String) × (Option Table.Key × String) :=
  (l.source.place, l.target.place)

/-- Both are the same edge, in whichever orientation. -/
def SameEdge (k l : Link) : Prop := k.ends = l.ends ∨ k.ends = l.flip.ends

/-- The source is a column of `a` and the target one of `b`. -/
def Leads (l : Link) (a b : Table) : Prop :=
  l.source.table?.map Table.key = some a.key ∧ l.target.table?.map Table.key = some b.key

/-- The edge is one between `a` and `b`. -/
def Joins (l : Link) (a b : Table) : Prop := l.Leads a b ∨ l.flip.Leads a b

/-- One of the two columns belongs to the table. -/
def Touches (l : Link) (t : Table) : Prop :=
  l.source.table?.map Table.key = some t.key ∨ l.target.table?.map Table.key = some t.key

/-- Both columns have tables. -/
def Bound (l : Link) : Prop := l.source.table?.isSome ∧ l.target.table?.isSome

instance : DecidableRel SameEdge := fun _ _ => inferInstanceAs (Decidable (_ ∨ _))

instance : Decidable (l.Leads a b) := inferInstanceAs (Decidable (_ ∧ _))

instance : Decidable (l.Touches t) := inferInstanceAs (Decidable (_ ∨ _))

/-- The edge as declared and turned around. A column joined with itself looks the same both ways. -/
def orientations (l : Link) : List Link := if l.flip.ends = l.ends then [l] else [l, l.flip]

end Link

/-- Edges as they were declared, in order. -/
abbrev EdgeList := List Link

namespace EdgeList

def declare (edges : EdgeList) (l : Link) : EdgeList :=
  if ∃ k ∈ edges, k.SameEdge l then edges else edges ++ [l]

def retract (edges : EdgeList) (l : Link) : EdgeList := edges.filter fun k => ¬ k.SameEdge l

def isolate (edges : EdgeList) (t : Table) : EdgeList := edges.filter fun k => ¬ k.Touches t

/-- Makes one change. -/
def edit (edges : EdgeList) : Edit → EdgeList
  | .link x y => edges.declare ⟨x, y⟩
  | .unlink x y => edges.retract ⟨x, y⟩
  | .eraseTable t => edges.isolate t

/-- Makes changes in order. -/
def edits (edges : EdgeList) (es : List Edit) : EdgeList := es.foldl edit edges

/-- The edges between two tables, in order, each turned to lead from `a` to `b`. -/
def between (edges : EdgeList) (a b : Table) : List Link :=
  (edges.flatMap Link.orientations).filter fun k => k.Leads a b

end EdgeList

/-! ## Orientations -/

namespace Link

variable {k l : Link} {a b t : Table}

theorem ends_flip (l : Link) : l.flip.ends = l.ends.swap := rfl

theorem flip_ends_eq_iff : k.flip.ends = l.ends ↔ k.ends = l.flip.ends := by
  rw [ends_flip, ends_flip]
  exact Prod.swap_eq_iff_eq_swap

/-- The ends decide which tables an edge leads from and to. -/
theorem leads_congr (h : k.ends = l.ends) : k.Leads a b ↔ l.Leads a b := by
  show k.ends.1.1 = _ ∧ k.ends.2.1 = _ ↔ l.ends.1.1 = _ ∧ l.ends.2.1 = _
  rw [h]

/-- Between two tables the names of the columns decide the ends. -/
theorem ends_eq_iff (hk : k.Leads a b) (hl : l.Leads a b) :
    k.ends = l.ends ↔ k.names = l.names := by
  simp only [ends, Column.place, names, hk.1, hk.2, hl.1, hl.2, Prod.mk.injEq, true_and]

theorem eq_or_eq_flip_of_mem (h : k ∈ l.orientations) : k = l ∨ k = l.flip := by
  unfold orientations at h
  split_ifs at h
  · exact .inl (List.mem_singleton.mp h)
  · simpa using h

/-- Some orientation has the given ends exactly when the edge is the one with these ends. -/
theorem exists_orientation_iff : (∃ m ∈ k.orientations, m.ends = l.ends) ↔ k.SameEdge l := by
  unfold orientations SameEdge
  rw [← flip_ends_eq_iff]
  split_ifs with h
  · simp [h]
  · simp

theorem touches_of_sameEdge (h : k.SameEdge l) : k.Touches t ↔ l.Touches t := by
  have htouches : ∀ m : Link, m.Touches t ↔ m.ends.1.1 = some t.key ∨ m.ends.2.1 = some t.key :=
    fun _ => Iff.rfl
  rw [htouches, htouches]
  rcases h with h | h
  · rw [h]
  · rw [h, ends_flip, Prod.fst_swap, Prod.snd_swap, or_comm]

theorem sameEdge_congr {m : Link} (h : k.SameEdge l) : k.SameEdge m ↔ l.SameEdge m := by
  unfold SameEdge
  rcases h with h | h
  · rw [h]
  · rw [h, ← flip_ends_eq_iff (k := l), ends_flip m, ends_flip l, Prod.swap_inj, or_comm]

theorem sameEdge_of_mem_orientations (h : k ∈ l.orientations) : k.SameEdge l := by
  rcases eq_or_eq_flip_of_mem h with rfl | rfl
  · exact .inl rfl
  · exact .inr rfl

/-- An edge touches the table that it leads from, either way round. -/
theorem touches_iff (hl : l.Bound) : l.Touches t ↔ ∃ b, l.Joins t b := by
  obtain ⟨p, hp⟩ := Option.isSome_iff_exists.mp hl.1
  obtain ⟨q, hq⟩ := Option.isSome_iff_exists.mp hl.2
  simp only [Touches, Joins, Leads, flip, hp, hq, Option.map_some, Option.some.injEq]
  constructor
  · rintro (h | h)
    · exact ⟨q, .inl ⟨h, rfl⟩⟩
    · exact ⟨p, .inr ⟨h, rfl⟩⟩
  · rintro ⟨b, h | h⟩
    · exact .inl h.1
    · exact .inr h.1

end Link

/-! ## The links of a list -/

namespace EdgeList

variable {edges : EdgeList} {k l : Link} {a b t : Table}

theorem mem_between : k ∈ edges.between a b ↔
    (∃ l ∈ edges, k ∈ l.orientations) ∧ k.Leads a b := by
  simp [between]

theorem between_append : (edges ++ [l]).between a b =
    edges.between a b ++ l.orientations.filter fun k => k.Leads a b := by
  simp [between]

/-- Taking out edges takes out what they are seen as. -/
theorem between_filter (p : Link → Bool) (hp : ∀ l, ∀ k ∈ l.orientations, p k = p l) :
    between (edges.filter p) a b = (edges.between a b).filter p := by
  have hflatMap : (edges.filter p).flatMap Link.orientations =
      (edges.flatMap Link.orientations).filter p := by
    induction edges with
    | nil => rfl
    | cons l edges ih =>
      rw [List.flatMap_cons, List.filter_append, ← ih]
      by_cases hl : p l = true
      · rw [List.filter_cons_of_pos hl, List.flatMap_cons,
          List.filter_eq_self.mpr fun k hk => (hp l k hk).trans hl]
      · have hnil : l.orientations.filter p = [] :=
          List.filter_eq_nil_iff.mpr fun k hk => by rwa [hp l k hk]
        rw [List.filter_cons_of_neg hl, hnil, List.nil_append]
  unfold between
  rw [hflatMap, List.filter_filter, List.filter_filter]
  exact List.filter_congr fun k _ => Bool.and_comm _ _

/-- Among the links from `a` to `b` are the names of an edge exactly when the edge is listed. -/
theorem exists_names_iff (hl : l.Leads a b) :
    (∃ k ∈ edges.between a b, k.names = l.names) ↔ ∃ k ∈ edges, k.SameEdge l := by
  constructor
  · rintro ⟨k, hk, hnames⟩
    obtain ⟨⟨m, hm, hkm⟩, hleads⟩ := mem_between.mp hk
    exact ⟨m, hm, Link.exists_orientation_iff.mp ⟨k, hkm, (Link.ends_eq_iff hleads hl).mpr hnames⟩⟩
  · rintro ⟨m, hm, hsame⟩
    obtain ⟨k, hk, hends⟩ := Link.exists_orientation_iff.mpr hsame
    have hleads : k.Leads a b := (Link.leads_congr hends).mpr hl
    exact ⟨k, mem_between.mpr ⟨⟨m, hm, hk⟩, hleads⟩, (Link.ends_eq_iff hleads hl).mp hends⟩

theorem between_ne_nil_iff : edges.between a b ≠ [] ↔ ∃ l ∈ edges, l.Joins a b := by
  constructor
  · intro h
    obtain ⟨k, hk⟩ := List.exists_mem_of_ne_nil _ h
    obtain ⟨⟨l, hl, hkl⟩, hleads⟩ := mem_between.mp hk
    rcases Link.eq_or_eq_flip_of_mem hkl with rfl | rfl
    · exact ⟨k, hl, .inl hleads⟩
    · exact ⟨l, hl, .inr hleads⟩
  · rintro ⟨l, hl, hjoins⟩
    obtain ⟨m, hm, hleads⟩ : ∃ m, l.SameEdge m ∧ m.Leads a b :=
      hjoins.elim (fun h => ⟨l, .inl rfl, h⟩) fun h => ⟨l.flip, .inr rfl, h⟩
    obtain ⟨k, hk, hends⟩ := Link.exists_orientation_iff.mpr hm
    exact List.ne_nil_of_mem
      (mem_between.mpr ⟨⟨l, hl, hk⟩, (Link.leads_congr hends).mpr hleads⟩)

theorem between_retract : (edges.retract l).between a b =
    (edges.between a b).filter fun k => ¬ k.SameEdge l :=
  between_filter _ fun _ _ hk => decide_eq_decide.mpr
    (not_congr (Link.sameEdge_congr (Link.sameEdge_of_mem_orientations hk)))

theorem between_isolate : (edges.isolate t).between a b =
    (edges.between a b).filter fun k => ¬ k.Touches t :=
  between_filter _ fun _ _ hk => decide_eq_decide.mpr
    (not_congr (Link.touches_of_sameEdge (Link.sameEdge_of_mem_orientations hk)))

end EdgeList

/-! ## A graph and its list -/

namespace JoinGraph

variable {g g' : JoinGraph} {edges : EdgeList} {a b c d t : Table} {x y : Column} {e : Edit}
  {es : List Edit}

theorem WellFormed.leads (hg : g.WellFormed) : ∀ l ∈ g.links a b, l.Leads a b := by
  intro l hl
  obtain ⟨p, q, hp, hpa, hq, hqb⟩ := hg.owned a b l hl
  exact ⟨by rw [hp, Option.map_some, hpa], by rw [hq, Option.map_some, hqb]⟩

/-- Adding one direction of a link that is there changes no links. -/
theorem links_insertLink_of_linked (h : g.Linked a b (x.name, y.name)) :
    (g.insertLink a x b y).links c d = g.links c d := by
  rw [links_insertLink]
  split_ifs with hkeys
  · obtain ⟨k, hk, hnames⟩ := h
    rw [Link.addTo, Option.getD_some,
      if_pos (List.any_eq_true.mpr ⟨k, hk, Link.hasNames_iff.mpr hnames⟩),
      links_congr hkeys.1 hkeys.2]
  · rfl

/-- Adding one direction of a new link appends it, to the links between its own tables. -/
theorem links_insertLink_of_not_linked (hx : x.table? = some a) (hy : y.table? = some b)
    (h : ¬ g.Linked a b (x.name, y.name)) :
    (g.insertLink a x b y).links c d =
      g.links c d ++ [(⟨x, y⟩ : Link)].filter fun k => k.Leads c d := by
  have hleads : (⟨x, y⟩ : Link).Leads c d ↔ a.key = c.key ∧ b.key = d.key := by
    simp [Link.Leads, hx, hy]
  rw [links_insertLink, List.filter_singleton]
  by_cases hkeys : a.key = c.key ∧ b.key = d.key
  · have hany : ¬ (g.links a b).any (·.hasNames x y) = true := by
      intro hany
      obtain ⟨k, hk, hnames⟩ := List.any_eq_true.mp hany
      exact h ⟨k, hk, Link.hasNames_iff.mp hnames⟩
    rw [if_pos hkeys, Link.addTo, Option.getD_some, if_neg hany, links_congr hkeys.1 hkeys.2,
      decide_eq_true (hleads.mpr hkeys), cond_true]
  · rw [if_neg hkeys, decide_eq_false (mt hleads.mp hkeys), cond_false, List.append_nil]

/-- Removing one direction filters the links between any two tables. -/
theorem links_eraseLink_eq_filter (hx : x.table? = some a) (hy : y.table? = some b)
    (hg : ∀ c d, ∀ l ∈ g.links c d, l.Leads c d) :
    (g.eraseLink a x b y).links c d =
      (g.links c d).filter fun k => ¬ k.ends = (⟨x, y⟩ : Link).ends := by
  have hleads : (⟨x, y⟩ : Link).Leads a b := by simp [Link.Leads, hx, hy]
  have hnames : ∀ k : Link, k.Leads a b →
      (!k.hasNames x y) = decide (¬ k.ends = (⟨x, y⟩ : Link).ends) := by
    intro k hk
    rw [decide_not, Bool.not_inj_iff, Bool.eq_iff_iff, Link.hasNames_iff, decide_eq_true_iff,
      Link.ends_eq_iff hk hleads]
    rfl
  rw [links_eraseLink]
  split_ifs with hkeys
  · rw [← links_congr hkeys.1 hkeys.2]
    exact List.filter_congr fun k hk => hnames k (hg a b k hk)
  · refine (List.filter_eq_self.mpr fun k hk => ?_).symm
    rw [decide_eq_true_iff]
    intro hends
    obtain ⟨hc, hd⟩ := (Link.leads_congr hends).mp (hg c d k hk)
    exact hkeys ⟨Option.some.inj (hleads.1.symm.trans hc), Option.some.inj (hleads.2.symm.trans hd)⟩

/-! ## Every change keeps the tie -/

/-- The graph stores the edges of the list. -/
structure Represents (g : JoinGraph) (edges : EdgeList) : Prop where
  wellFormed : g.WellFormed
  bound : ∀ l ∈ edges, l.Bound
  links : ∀ a b, g.links a b = edges.between a b

namespace Represents

theorem linked_iff (h : g.Represents edges) {l : Link} (hl : l.Leads a b) :
    g.Linked a b l.names ↔ ∃ k ∈ edges, k.SameEdge l := by
  unfold Linked
  rw [h.links]
  exact EdgeList.exists_names_iff hl

theorem empty : empty.Represents [] where
  wellFormed := .empty
  bound := fun _ h => absurd h List.not_mem_nil
  links := fun _ _ => rfl

theorem connect (h : g.Represents edges) (hx : x.table? = some a) (hy : y.table? = some b) :
    (g.connect a x b y).Represents (edges.declare ⟨x, y⟩) := by
  have hleads : (⟨x, y⟩ : Link).Leads a b := by simp [Link.Leads, hx, hy]
  have hlinked := h.linked_iff hleads
  refine ⟨h.wellFormed.connect hx hy, ?_, fun c d => ?_⟩
  · unfold EdgeList.declare
    split_ifs
    · exact h.bound
    · refine List.forall_mem_append.mpr ⟨h.bound, ?_⟩
      simp [Link.Bound, hx, hy]
  unfold JoinGraph.connect EdgeList.declare
  by_cases hold : ∃ k ∈ edges, k.SameEdge ⟨x, y⟩
  · have hforth : g.Linked a b (x.name, y.name) := hlinked.mpr hold
    have hback := h.wellFormed.mirrored a b _ _ hforth
    rw [if_pos hold, links_insertLink_of_linked (linked_insertLink.mpr (.inl hback)),
      links_insertLink_of_linked hforth, h.links]
  · have hforth : ¬ g.Linked a b (x.name, y.name) := mt hlinked.mp hold
    -- the way back is there already exactly when it is the way forth
    have hback : (g.insertLink a x b y).Linked b a (y.name, x.name) ↔
        (⟨x, y⟩ : Link).flip.ends = (⟨x, y⟩ : Link).ends := by
      have hnot : ¬ g.Linked b a (y.name, x.name) := mt (h.wellFormed.mirrored b a _ _) hforth
      simp only [linked_insertLink, hnot, false_or, Link.flip, Link.ends, Column.place, hx, hy,
        Option.map_some, Prod.mk.injEq, Option.some.injEq]
      tauto
    rw [if_neg hold, EdgeList.between_append, ← h.links, Link.orientations]
    split_ifs with hends
    · rw [links_insertLink_of_linked (hback.mpr hends), links_insertLink_of_not_linked hx hy hforth]
    · rw [links_insertLink_of_not_linked hy hx (mt hback.mp hends),
        links_insertLink_of_not_linked hx hy hforth, List.append_assoc, ← List.filter_append]
      rfl

theorem disconnect (h : g.Represents edges) (hx : x.table? = some a) (hy : y.table? = some b) :
    (g.disconnect a x b y).Represents (edges.retract ⟨x, y⟩) := by
  have hleads : ∀ c d, ∀ l ∈ (g.eraseLink a x b y).links c d, l.Leads c d :=
    fun c d l hl => h.wellFormed.leads l ((sublist_links_eraseLink c d).subset hl)
  refine ⟨h.wellFormed.disconnect, fun l hl => h.bound l (List.mem_of_mem_filter hl), fun c d => ?_⟩
  rw [JoinGraph.disconnect, links_eraseLink_eq_filter hy hx hleads,
    links_eraseLink_eq_filter hx hy fun _ _ => h.wellFormed.leads, List.filter_filter,
    EdgeList.between_retract, ← h.links]
  refine List.filter_congr fun k _ => ?_
  rw [← Bool.decide_and, decide_eq_decide, ← not_or, or_comm]
  rfl

theorem eraseTable (h : g.Represents edges) (t : Table) :
    (g.eraseTable t).Represents (edges.isolate t) := by
  refine ⟨h.wellFormed.eraseTable, fun l hl => h.bound l (List.mem_of_mem_filter hl),
    fun c d => ?_⟩
  have htouches : ∀ l ∈ g.links c d, l.Touches t ↔ t.key = c.key ∨ t.key = d.key := by
    intro l hl
    obtain ⟨hc, hd⟩ := h.wellFormed.leads l hl
    simp only [Link.Touches, hc, hd, Option.some.injEq, eq_comm]
  rw [links_eraseTable h.wellFormed.shape, EdgeList.between_isolate, ← h.links]
  split_ifs with hkeys
  · refine (List.filter_eq_nil_iff.mpr fun l hl => ?_).symm
    simpa using (htouches l hl).mpr hkeys
  · refine (List.filter_eq_self.mpr fun l hl => ?_).symm
    simpa using mt (htouches l hl).mp hkeys

/-- **Every change keeps the tie.** -/
theorem edit (h : g.Represents edges) (he : g.edit e = .ok g') : g'.Represents (edges.edit e) := by
  cases e with
  | link x y =>
    obtain ⟨a, b, hx, hy, rfl⟩ := linkColumns_eq_ok he
    exact h.connect hx hy
  | unlink x y =>
    obtain ⟨a, b, hx, hy, rfl⟩ := unlinkColumns_eq_ok he
    exact h.disconnect hx hy
  | eraseTable t => exact Except.ok.inj he ▸ h.eraseTable t

theorem edits (h : g.Represents edges) (hes : g.edits es = .ok g') :
    g'.Represents (edges.edits es) := by
  induction es generalizing g edges with
  | nil => exact Except.ok.inj hes ▸ h
  | cons e es ih =>
    obtain ⟨g₁, hg₁, hrest⟩ := bind_eq_ok_iff.mp hes
    exact ih (h.edit hg₁) hrest

/-! ## What the list tells -/

theorem links_ne_nil_iff (h : g.Represents edges) :
    g.links a b ≠ [] ↔ ∃ l ∈ edges, l.Joins a b := by
  rw [h.links]
  exact EdgeList.between_ne_nil_iff

theorem mem_tables_iff (h : g.Represents edges) :
    (∃ u ∈ g.tables, u.key = t.key) ↔ ∃ l ∈ edges, l.Touches t := by
  rw [h.wellFormed.shape.exists_mem_tables_iff]
  constructor
  · rintro ⟨b, hb⟩
    obtain ⟨l, hl, hjoins⟩ := h.links_ne_nil_iff.mp hb
    exact ⟨l, hl, (Link.touches_iff (h.bound l hl)).mpr ⟨b, hjoins⟩⟩
  · rintro ⟨l, hl, htouches⟩
    obtain ⟨b, hjoins⟩ := (Link.touches_iff (h.bound l hl)).mp htouches
    exact ⟨b, h.links_ne_nil_iff.mpr ⟨l, hl, hjoins⟩⟩

theorem mem_neighbours_iff (h : g.Represents edges) :
    (∃ u ∈ g.neighbours a, u.key = b.key) ↔ ∃ l ∈ edges, l.Joins a b := by
  rw [h.wellFormed.shape.exists_mem_neighbours_iff, h.links_ne_nil_iff]

theorem isEmpty_iff (h : g.Represents edges) : g.isEmpty = true ↔ edges = [] := by
  have htables : g.isEmpty = true ↔ g.tables = [] := by
    rw [JoinGraph.isEmpty, List.isEmpty_iff]
    exact List.map_eq_nil_iff.symm
  rw [htables]
  constructor
  · intro hnil
    rw [List.eq_nil_iff_forall_not_mem]
    intro l hl
    -- the source of an edge would be a table of the graph
    obtain ⟨t, ht⟩ := Option.isSome_iff_exists.mp (h.bound l hl).1
    obtain ⟨u, hu, -⟩ := h.mem_tables_iff.mpr ⟨l, hl, .inl (congrArg (Option.map Table.key) ht)⟩
    rw [hnil] at hu
    exact absurd hu List.not_mem_nil
  · rintro rfl
    rw [List.eq_nil_iff_forall_not_mem]
    intro u hu
    obtain ⟨l, hl, -⟩ := h.mem_tables_iff.mp ⟨u, hu, rfl⟩
    exact absurd hl List.not_mem_nil

end Represents

/-- A link added or removed leaves the links between other tables alone. -/
theorem links_edit_of_not_joins
    (h : g.edit (.link x y) = .ok g' ∨ g.edit (.unlink x y) = .ok g')
    (hjoins : ¬ (⟨x, y⟩ : Link).Joins c d) : g'.links c d = g.links c d := by
  have hforth : ∀ {a b}, x.table? = some a → y.table? = some b →
      ¬ (a.key = c.key ∧ b.key = d.key) := by
    intro a b hx hy hkeys
    exact hjoins (.inl (by simp [Link.Leads, hx, hy, hkeys]))
  have hback : ∀ {a b}, x.table? = some a → y.table? = some b →
      ¬ (b.key = c.key ∧ a.key = d.key) := by
    intro a b hx hy hkeys
    exact hjoins (.inr (by simp [Link.Leads, Link.flip, hx, hy, hkeys]))
  rcases h with h | h
  · obtain ⟨a, b, hx, hy, rfl⟩ := linkColumns_eq_ok h
    rw [connect, links_insertLink, if_neg (hback hx hy), links_insertLink, if_neg (hforth hx hy)]
  · obtain ⟨a, b, hx, hy, rfl⟩ := unlinkColumns_eq_ok h
    rw [disconnect, links_eraseLink, if_neg (hback hx hy), links_eraseLink, if_neg (hforth hx hy)]

/-- **A join graph is the list of its edges.** After any changes through columns that have tables,
the links from one table to another are the edges between the two, in order and turned that way.
The tables are those that edges touch, the neighbours of a table those that edges join to it, and
the graph is empty exactly when the list is. A link added or removed next leaves all links between
other tables alone. A table removed next is named by no link and has no entry, and the links
between other tables stay. -/
theorem edits_represent (es : List Edit) (h : ∀ e ∈ es, e.Bound) :
    ∃ g, empty.edits es = .ok g ∧
      (∀ a b, g.links a b = (EdgeList.edits [] es).between a b) ∧
      (∀ t, (∃ u ∈ g.tables, u.key = t.key) ↔ ∃ l ∈ EdgeList.edits [] es, l.Touches t) ∧
      (∀ a b, (∃ u ∈ g.neighbours a, u.key = b.key) ↔ ∃ l ∈ EdgeList.edits [] es, l.Joins a b) ∧
      (g.isEmpty = true ↔ EdgeList.edits [] es = []) ∧
      (∀ x y g', g.edit (.link x y) = .ok g' ∨ g.edit (.unlink x y) = .ok g' →
        ∀ c d, ¬ (⟨x, y⟩ : Link).Joins c d → g'.links c d = g.links c d) ∧
      ∀ t, (∀ c d, ∀ l ∈ (g.eraseTable t).links c d, ¬ l.Touches t) ∧
        (∀ u ∈ (g.eraseTable t).tables, u.key ≠ t.key) ∧
        ∀ c d, t.key ≠ c.key → t.key ≠ d.key → (g.eraseTable t).links c d = g.links c d := by
  obtain ⟨g, hok⟩ := edits_ok (g := empty) h
  have hg := Represents.empty.edits hok
  refine ⟨g, hok, hg.links, fun t => hg.mem_tables_iff, fun a b => hg.mem_neighbours_iff,
    hg.isEmpty_iff, fun x y g' hedit c d => links_edit_of_not_joins hedit, fun t => ⟨?_, ?_, ?_⟩⟩
  · intro c d l hl
    rw [(hg.eraseTable t).links, EdgeList.between_isolate] at hl
    exact of_decide_eq_true (List.mem_filter.mp hl).2
  · intro u hu hkey
    obtain ⟨l, hl, htouches⟩ := (hg.eraseTable t).mem_tables_iff.mp ⟨u, hu, hkey⟩
    exact of_decide_eq_true (List.mem_filter.mp hl).2 htouches
  · intro c d hc hd
    rw [links_eraseTable hg.wellFormed.shape, if_neg (not_or.mpr ⟨hc, hd⟩)]

/-- An edge taken out from its other side and declared again comes last, turned as it is then. -/
theorem edits_represent_declared_again :
    let people := Table.ofName "people"
    let pets := Table.ofName "pets"
    let es : List Edit := [.link (pets.column "owner" .any) (people.column "id" .any),
      .link (people.column "id" .any) (people.column "boss" .any),
      .link (people.column "boss" .any) (people.column "id" .any),
      .link (pets.column "sitter" .any) (people.column "id" .any),
      .unlink (people.column "id" .any) (pets.column "owner" .any),
      .link (people.column "id" .any) (pets.column "owner" .any)]
    (∀ e ∈ es, e.Bound) ∧ ∃ g, empty.edits es = .ok g ∧
      (EdgeList.edits [] es).map Link.names =
        [("id", "boss"), ("sitter", "id"), ("id", "owner")] ∧
      (g.links pets people).map Link.names = [("sitter", "id"), ("owner", "id")] ∧
      (g.links people people).map Link.names = [("id", "boss"), ("boss", "id")] := by
  intro people pets es
  have hbound : ∀ e ∈ es, e.Bound := by simp [es, Edit.Bound, Table.column]
  obtain ⟨g, hok, hlinks, -⟩ := edits_represent es hbound
  refine ⟨hbound, g, hok, by cbv, ?_, ?_⟩
  · rw [hlinks]
    cbv
  · rw [hlinks]
    cbv

end JoinGraph
end SqlBuilder
