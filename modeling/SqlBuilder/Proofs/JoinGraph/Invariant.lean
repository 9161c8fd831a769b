import Mathlib.Data.List.Nodup
import SqlBuilder.JoinGraph.Basic
import SqlBuilder.Proofs.TableMap

/-!
# The representation invariant of join graphs

`Reachable` are the graphs that adding and removing links, removing tables and seeding lead to.
`WellFormed` is what all of them keep: distinct keys on both levels of the map, no empty entry,
every link stored from both ends, no pair of names twice, and columns that belong to the tables
that they are stored under.

Adding and removing work one direction at a time, and between the two halves the graph is not
mirrored. So each half has its equation for the links between any two tables (`links_insertLink`,
`links_eraseLink`) and keeps the `Shape` of the map, and the other parts of the invariant are read
off the two equations together.
-/

namespace SqlBuilder

/-- The names of the columns that a link joins. -/
def Link.names (l : Link) : String × String := (l.source.name, l.target.name)

theorem Link.hasNames_iff {l : Link} {x y : Column} :
    l.hasNames x y = true ↔ l.names = (x.name, y.name) := by
  simp [Link.hasNames, Link.names]

namespace JoinGraph

variable {g g' : JoinGraph} {a b c d t : Table} {x y : Column} {names : String × String}

/-- The graphs that links, removals and foreign keys lead to. -/
inductive Reachable : JoinGraph → Prop
  | empty : Reachable empty
  | ofForeignKeys (keys : List ForeignKey) : Reachable (ofForeignKeys keys)
  | linkColumns {g g' : JoinGraph} (x y : Column) (hg : Reachable g)
      (h : g.linkColumns x y = .ok g') : Reachable g'
  | unlinkColumns {g g' : JoinGraph} (x y : Column) (hg : Reachable g)
      (h : g.unlinkColumns x y = .ok g') : Reachable g'
  | eraseTable {g : JoinGraph} (t : Table) (hg : Reachable g) : Reachable (g.eraseTable t)

/-! ## The invariant -/

/-- A link with these column names leads from `a` to `b`. -/
def Linked (g : JoinGraph) (a b : Table) (names : String × String) : Prop :=
  ∃ l ∈ g.links a b, l.names = names

/-- The entry of a table: distinct neighbours, each with some link. -/
def Filled (neighbours : TableMap (List Link)) : Prop :=
  neighbours.Distinct ∧ ∀ t, neighbours.get? t ≠ some []

/-- The shape of the map: distinct tables, each with some neighbour. -/
structure Shape (g : JoinGraph) : Prop where
  distinct : g.edges.Distinct
  filled : ∀ t neighbours, g.edges.get? t = some neighbours → Filled neighbours ∧ neighbours ≠ []

/-- **The representation invariant.** -/
structure WellFormed (g : JoinGraph) : Prop where
  shape : g.Shape
  /-- A link is stored from both of its ends. -/
  mirrored : ∀ a b x y, g.Linked a b (x, y) → g.Linked b a (y, x)
  /-- Between two tables a pair of names is stored once. -/
  nodup : ∀ a b, ((g.links a b).map Link.names).Nodup
  /-- The columns of a link belong to the two tables that it is stored under. -/
  owned : ∀ a b, ∀ l ∈ g.links a b, ∃ p q, l.source.table? = some p ∧ p.key = a.key ∧
    l.target.table? = some q ∧ q.key = b.key

/-! ## Links by entries -/

/-- The entry of a table, empty if there is none. -/
def entry (g : JoinGraph) (t : Table) : TableMap (List Link) := (g.edges.get? t).getD []

theorem links_eq : g.links a b = ((g.entry a).get? b).getD [] := by
  unfold links entry
  cases g.edges.get? a <;> rfl

theorem links_congr (ha : a.key = c.key) (hb : b.key = d.key) : g.links a b = g.links c d := by
  rw [links_eq, links_eq, entry, entry, TableMap.get?_congr ha, TableMap.get?_congr hb]

theorem Filled.nil : Filled [] := ⟨List.nodup_nil, fun _ => by simp⟩

theorem Shape.filled_entry (hg : g.Shape) (t : Table) : Filled (g.entry t) := by
  unfold entry
  cases h : g.edges.get? t with
  | none => exact .nil
  | some neighbours => exact (hg.filled t neighbours h).1

/-- Under the shape a table has links to another exactly when the other is in its entry. -/
theorem Filled.get?_eq_some_getD {neighbours : TableMap (List Link)} (h : Filled neighbours) :
    neighbours.get? t = none ∨ ∃ l ls, neighbours.get? t = some (l :: ls) := by
  cases hget : neighbours.get? t with
  | none => exact .inl rfl
  | some links =>
    cases links with
    | nil => exact absurd hget (h.2 t)
    | cons l ls => exact .inr ⟨l, ls, rfl⟩

/-! ## Adding one direction -/

theorem Link.addTo_ne_nil (l : Link) (links : Option (List Link)) : Link.addTo l links ≠ [] := by
  rw [Link.addTo]
  split_ifs with h
  · rintro hnil
    rw [hnil] at h
    exact absurd h (by simp)
  · simp

theorem Filled.addLink {neighbours : TableMap (List Link)} (h : Filled neighbours) (l : Link) :
    Filled (neighbours.alter (Link.addTo l) b) := by
  refine ⟨h.1.alter _, fun t => ?_⟩
  rw [TableMap.get?_alter]
  split_ifs
  · simpa using Link.addTo_ne_nil l _
  · exact h.2 t

theorem Shape.insertLink (hg : g.Shape) : (g.insertLink a x b y).Shape := by
  refine ⟨hg.distinct.alter _, fun t neighbours h => ?_⟩
  rw [JoinGraph.insertLink, TableMap.get?_alter] at h
  split_ifs at h
  · obtain rfl := Option.some.inj h
    refine ⟨(hg.filled_entry a).addLink ⟨x, y⟩, fun hnil => ?_⟩
    have hb := TableMap.eq_nil_iff.mp hnil b
    rw [TableMap.get?_alter, if_pos rfl] at hb
    exact Option.some_ne_none _ hb
  · exact hg.filled t neighbours h

/-- The links between any two tables after one direction was added. -/
theorem links_insertLink : (g.insertLink a x b y).links c d =
    if a.key = c.key ∧ b.key = d.key then Link.addTo ⟨x, y⟩ (some (g.links a b))
    else g.links c d := by
  have hentry : (g.insertLink a x b y).entry c =
      if a.key = c.key then (g.entry a).alter (Link.addTo ⟨x, y⟩) b else g.entry c := by
    unfold entry insertLink
    rw [TableMap.get?_alter]
    split_ifs <;> rfl
  rw [links_eq, hentry]
  by_cases ha : a.key = c.key
  · rw [if_pos ha, TableMap.get?_alter]
    by_cases hb : b.key = d.key
    · rw [if_pos hb, if_pos ⟨ha, hb⟩, links_eq]
      rfl
    · rw [if_neg hb, if_neg (fun h => hb h.2), ← links_eq, links_congr ha rfl]
  · rw [if_neg ha, if_neg (fun h => ha h.1), links_eq]

theorem Link.mem_addTo {l k : Link} {links : List Link} :
    k ∈ Link.addTo l (some links) → k ∈ links ∨ k = l := by
  rw [Link.addTo]
  split_ifs
  · exact .inl
  · intro h
    simpa using h

theorem Link.names_mem_addTo {l : Link} {links : List Link} :
    names ∈ (Link.addTo l (some links)).map Link.names ↔
      names ∈ links.map Link.names ∨ names = l.names := by
  rw [Link.addTo]
  split_ifs with h
  · obtain ⟨k, hk, hnames⟩ := List.any_eq_true.mp h
    have hmem : l.names ∈ links.map Link.names :=
      List.mem_map.mpr ⟨k, hk, Link.hasNames_iff.mp hnames⟩
    exact ⟨.inl, fun hor => hor.elim id fun e => e ▸ hmem⟩
  · simp

theorem Link.nodup_addTo {l : Link} {links : List Link} (h : (links.map Link.names).Nodup) :
    ((Link.addTo l (some links)).map Link.names).Nodup := by
  rw [Link.addTo]
  split_ifs with hany
  · exact h
  · have hnotMem : l.names ∉ links.map Link.names := by
      intro hmem
      obtain ⟨k, hk, hnames⟩ := List.mem_map.mp hmem
      exact hany (List.any_eq_true.mpr ⟨k, hk, Link.hasNames_iff.mpr hnames⟩)
    simp only [Option.getD_some, List.map_append, List.map_cons, List.map_nil]
    exact List.Nodup.append h (List.nodup_singleton _) (by simpa using hnotMem)

theorem linked_iff : g.Linked a b names ↔ names ∈ (g.links a b).map Link.names :=
  List.mem_map.symm

theorem linked_insertLink : (g.insertLink a x b y).Linked c d names ↔
    g.Linked c d names ∨ a.key = c.key ∧ b.key = d.key ∧ names = (x.name, y.name) := by
  rw [linked_iff, linked_iff, links_insertLink]
  by_cases h : a.key = c.key ∧ b.key = d.key
  · rw [if_pos h, Link.names_mem_addTo, links_congr h.1 h.2]
    simp only [h, true_and]
    rfl
  · rw [if_neg h]
    tauto

/-! ## Removing one direction -/

theorem Filled.dropLink {neighbours : TableMap (List Link)} (h : Filled neighbours) :
    Filled (dropLink b x y neighbours) := by
  rw [JoinGraph.dropLink]
  split
  · exact h
  · rename_i links _
    by_cases hkept : (links.filter fun link => !link.hasNames x y).isEmpty = true
    · rw [if_pos hkept]
      refine ⟨h.1.erase, fun t => ?_⟩
      rw [TableMap.get?_erase]
      split_ifs
      · simp
      · exact h.2 t
    · rw [if_neg hkept]
      refine ⟨h.1.alter _, fun t => ?_⟩
      rw [TableMap.get?_alter]
      split_ifs
      · intro hnil
        exact hkept (List.isEmpty_iff.mpr (Option.some.inj hnil))
      · exact h.2 t

theorem getD_dropLink {neighbours : TableMap (List Link)} :
    ((dropLink b x y neighbours).get? d).getD [] =
      if b.key = d.key then
        ((neighbours.get? b).getD []).filter fun link => !link.hasNames x y
      else (neighbours.get? d).getD [] := by
  unfold dropLink
  cases hget : neighbours.get? b with
  | none =>
    split_ifs with hb
    · rw [← TableMap.get?_congr hb, hget]
      rfl
    · rfl
  | some links =>
    simp only [Option.getD_some]
    split_ifs with hkept hb hb
    · rw [TableMap.get?_erase, if_pos hb, List.isEmpty_iff.mp hkept]
      rfl
    · rw [TableMap.get?_erase, if_neg hb]
    · rw [TableMap.get?_alter, if_pos hb]
      rfl
    · rw [TableMap.get?_alter, if_neg hb]

/-- The entries after one direction was removed. -/
theorem get?_eraseLink : (g.eraseLink a x b y).edges.get? c =
    if a.key = c.key ∧ dropLink b x y (g.entry a) = [] then none
    else if a.key = c.key ∧ (g.edges.get? a).isSome then some (dropLink b x y (g.entry a))
    else g.edges.get? c := by
  unfold eraseLink entry
  cases ha : g.edges.get? a with
  | none =>
    have hdrop : dropLink b x y [] = [] := rfl
    simp only [Option.getD_none, hdrop, and_true, Option.isSome_none, Bool.false_eq_true,
      and_false, if_false]
    split_ifs with hkey
    · rw [← TableMap.get?_congr hkey, ha]
    · rfl
  | some neighbours =>
    simp only [Option.getD_some, Option.isSome_some, and_true]
    by_cases hnil : dropLink b x y neighbours = []
    · rw [if_pos (List.isEmpty_iff.mpr hnil), TableMap.get?_erase]
      simp only [hnil, and_true]
      split_ifs <;> rfl
    · rw [if_neg (fun h => hnil (List.isEmpty_iff.mp h)), TableMap.get?_alter]
      simp only [hnil, and_false, if_false]

theorem Shape.eraseLink (hg : g.Shape) : (g.eraseLink a x b y).Shape := by
  refine ⟨?_, fun t neighbours h => ?_⟩
  · rw [JoinGraph.eraseLink]
    split
    · exact hg.distinct
    · simp only
      split_ifs
      · exact hg.distinct.erase
      · exact hg.distinct.alter _
  · rw [get?_eraseLink] at h
    split_ifs at h with hnil hsome
    · obtain rfl := Option.some.inj h
      exact ⟨(hg.filled_entry a).dropLink, fun e => hnil ⟨hsome.1, e⟩⟩
    · exact hg.filled t neighbours h

/-- The links between any two tables after one direction was removed. -/
theorem links_eraseLink : (g.eraseLink a x b y).links c d =
    if a.key = c.key ∧ b.key = d.key then (g.links a b).filter fun link => !link.hasNames x y
    else g.links c d := by
  have hentry : a.key = c.key → (g.eraseLink a x b y).entry c = dropLink b x y (g.entry a) := by
    intro hkey
    rw [entry, get?_eraseLink]
    by_cases hnil : dropLink b x y (g.entry a) = []
    · rw [if_pos ⟨hkey, hnil⟩, hnil]
      rfl
    · rw [if_neg (fun h => hnil h.2)]
      cases ha : g.edges.get? a with
      | none =>
        have : g.entry a = [] := by rw [entry, ha]; rfl
        exact absurd (by rw [this]; rfl) hnil
      | some neighbours => simp [hkey]
  by_cases hkey : a.key = c.key
  · have hlinks : ∀ e, g.links a e = g.links c e := fun e => links_congr hkey rfl
    rw [links_eq, hentry hkey, getD_dropLink, ← links_eq, ← links_eq]
    simp only [hkey, true_and, hlinks]
  · have hsame : (g.eraseLink a x b y).entry c = g.entry c := by
      rw [entry, get?_eraseLink, if_neg (fun h => hkey h.1), if_neg (fun h => hkey h.1), entry]
    rw [if_neg (fun h => hkey h.1), links_eq, hsame, ← links_eq]

theorem linked_eraseLink : (g.eraseLink a x b y).Linked c d names ↔
    g.Linked c d names ∧ ¬ (a.key = c.key ∧ b.key = d.key ∧ names = (x.name, y.name)) := by
  rw [Linked, links_eraseLink]
  by_cases h : a.key = c.key ∧ b.key = d.key
  · rw [if_pos h, links_congr h.1 h.2, Linked]
    simp only [List.mem_filter, Bool.not_eq_true', Bool.eq_false_iff, ne_eq, Link.hasNames_iff, h,
      true_and]
    constructor
    · rintro ⟨l, ⟨hmem, hne⟩, rfl⟩
      exact ⟨⟨l, hmem, rfl⟩, hne⟩
    · rintro ⟨⟨l, hmem, rfl⟩, hne⟩
      exact ⟨l, ⟨hmem, hne⟩, rfl⟩
  · rw [if_neg h, Linked]
    tauto

/-! ## Removing a table -/

theorem get?_eraseTable (hg : g.Shape) : (g.eraseTable t).edges.get? c =
    if t.key = c.key then none
    else ((g.edges.get? c).map (·.erase t)).filter fun neighbours => !neighbours.isEmpty := by
  have hdistinct := (hg.distinct.erase (t := t)).mapValues (·.erase t)
  refine (TableMap.get?_filterValues hdistinct fun neighbours => !neighbours.isEmpty).trans ?_
  rw [TableMap.get?_mapValues fun neighbours : TableMap (List Link) => neighbours.erase t,
    TableMap.get?_erase]
  split_ifs <;> rfl

theorem Filled.erase {neighbours : TableMap (List Link)} (h : Filled neighbours) :
    Filled (neighbours.erase t) := by
  refine ⟨h.1.erase, fun u => ?_⟩
  rw [TableMap.get?_erase]
  split_ifs
  · simp
  · exact h.2 u

theorem Shape.eraseTable (hg : g.Shape) : (g.eraseTable t).Shape := by
  refine ⟨(hg.distinct.erase.mapValues (·.erase t)).filter _, fun u neighbours h => ?_⟩
  rw [get?_eraseTable hg] at h
  split_ifs at h
  · obtain ⟨hmap, hne⟩ := Option.filter_eq_some_iff.mp h
    obtain ⟨old, hold, rfl⟩ := Option.map_eq_some_iff.mp hmap
    exact ⟨(hg.filled u old hold).1.erase, by simpa using hne⟩

/-- The links between any two tables after a table was removed. -/
theorem links_eraseTable (hg : g.Shape) : (g.eraseTable t).links c d =
    if t.key = c.key ∨ t.key = d.key then [] else g.links c d := by
  rw [links_eq, entry, get?_eraseTable hg, links_eq, entry]
  by_cases hc : t.key = c.key
  · rw [if_pos hc, if_pos (.inl hc)]
    rfl
  · simp only [hc, if_false, false_or]
    cases hget : g.edges.get? c with
    | none => split_ifs <;> rfl
    | some neighbours =>
      have herase : ((neighbours.erase t).get? d).getD [] =
          if t.key = d.key then [] else (neighbours.get? d).getD [] := by
        rw [TableMap.get?_erase]
        split_ifs <;> rfl
      simp only [Option.map_some, Option.filter_some, Option.getD_some]
      rw [← herase]
      by_cases hempty : neighbours.erase t = []
      · simp [hempty]
      · simp [hempty]

/-! ## Every operation keeps the invariant -/

theorem WellFormed.empty : WellFormed empty where
  shape := ⟨List.nodup_nil, fun _ _ h => absurd h (Option.some_ne_none _).symm⟩
  mirrored := fun _ _ _ _ h => absurd h.choose_spec.1 List.not_mem_nil
  nodup := fun _ _ => List.nodup_nil
  owned := fun _ _ _ h => absurd h List.not_mem_nil

/-- Adding one direction keeps the names distinct. -/
theorem nodup_insertLink (h : ∀ a b, ((g.links a b).map Link.names).Nodup) (c d : Table) :
    (((g.insertLink a x b y).links c d).map Link.names).Nodup := by
  rw [links_insertLink]
  split_ifs
  · exact Link.nodup_addTo (h a b)
  · exact h c d

/-- Adding one direction with columns of its tables keeps columns with their tables. -/
theorem owned_insertLink (hx : x.table? = some a) (hy : y.table? = some b)
    (h : ∀ a b, ∀ l ∈ g.links a b, ∃ p q, l.source.table? = some p ∧ p.key = a.key ∧
      l.target.table? = some q ∧ q.key = b.key) (c d : Table) :
    ∀ l ∈ (g.insertLink a x b y).links c d, ∃ p q, l.source.table? = some p ∧ p.key = c.key ∧
      l.target.table? = some q ∧ q.key = d.key := by
  intro l hl
  rw [links_insertLink] at hl
  split_ifs at hl with hkeys
  · rcases Link.mem_addTo hl with hold | rfl
    · rw [links_congr hkeys.1 hkeys.2] at hold
      exact h c d l hold
    · exact ⟨a, b, hx, hkeys.1, hy, hkeys.2⟩
  · exact h c d l hl

theorem WellFormed.connect (hg : g.WellFormed) (hx : x.table? = some a) (hy : y.table? = some b) :
    (g.connect a x b y).WellFormed where
  shape := hg.shape.insertLink.insertLink
  mirrored := by
    intro c d m n h
    rw [JoinGraph.connect, linked_insertLink, linked_insertLink] at h ⊢
    simp only [Prod.mk.injEq] at h ⊢
    rcases h with (h | ⟨hc, hd, hm, hn⟩) | ⟨hc, hd, hm, hn⟩
    · exact .inl (.inl (hg.mirrored c d m n h))
    · exact .inr ⟨hd, hc, hn, hm⟩
    · exact .inl (.inr ⟨hd, hc, hn, hm⟩)
  nodup := nodup_insertLink (nodup_insertLink hg.nodup)
  owned := owned_insertLink hy hx (owned_insertLink hx hy hg.owned)

/-- What both directions of a removal leave is a part of what was there. -/
theorem sublist_links_eraseLink (c d : Table) :
    ((g.eraseLink a x b y).links c d).Sublist (g.links c d) := by
  rw [links_eraseLink]
  split_ifs with h
  · rw [links_congr h.1 h.2]
    exact List.filter_sublist
  · exact List.Sublist.refl _

theorem WellFormed.disconnect (hg : g.WellFormed) : (g.disconnect a x b y).WellFormed where
  shape := hg.shape.eraseLink.eraseLink
  mirrored := by
    intro c d m n h
    rw [JoinGraph.disconnect, linked_eraseLink, linked_eraseLink] at h ⊢
    simp only [Prod.mk.injEq] at h ⊢
    obtain ⟨⟨hold, hab⟩, hba⟩ := h
    exact ⟨⟨hg.mirrored c d m n hold, fun ⟨hd, hc, hm, hn⟩ => hba ⟨hc, hd, hn, hm⟩⟩,
      fun ⟨hd, hc, hm, hn⟩ => hab ⟨hc, hd, hn, hm⟩⟩
  nodup := fun c d => (hg.nodup c d).sublist
    (((sublist_links_eraseLink c d).trans (sublist_links_eraseLink c d)).map Link.names)
  owned := fun c d l hl => hg.owned c d l
    (((sublist_links_eraseLink c d).trans (sublist_links_eraseLink c d)).subset hl)

theorem WellFormed.eraseTable (hg : g.WellFormed) : (g.eraseTable t).WellFormed where
  shape := hg.shape.eraseTable
  mirrored := by
    intro c d m n h
    rw [Linked, links_eraseTable hg.shape] at h ⊢
    split_ifs at h with hkeys
    · exact absurd h.choose_spec.1 List.not_mem_nil
    · rw [if_neg (fun e => hkeys e.symm)]
      exact hg.mirrored c d m n h
  nodup := by
    intro c d
    rw [links_eraseTable hg.shape]
    split_ifs
    · exact List.nodup_nil
    · exact hg.nodup c d
  owned := by
    intro c d l hl
    rw [links_eraseTable hg.shape] at hl
    split_ifs at hl
    · exact absurd hl List.not_mem_nil
    · exact hg.owned c d l hl

/-! ## Reachable graphs -/

theorem requireTable_eq_ok (h : x.requireTable = .ok a) : x.table? = some a := by
  unfold Column.requireTable at h
  cases hx : x.table? with
  | none =>
    rw [hx] at h
    exact absurd h (by simp [throw, throwThe, MonadExceptOf.throw])
  | some b =>
    rw [hx] at h
    rw [Except.ok.inj h]

theorem linkColumns_eq_ok (h : g.linkColumns x y = .ok g') :
    ∃ a b, x.table? = some a ∧ y.table? = some b ∧ g' = g.connect a x b y := by
  obtain ⟨a, ha, h⟩ := bind_eq_ok_iff.mp h
  obtain ⟨b, hb, h⟩ := bind_eq_ok_iff.mp h
  exact ⟨a, b, requireTable_eq_ok ha, requireTable_eq_ok hb, (Except.ok.inj h).symm⟩

theorem unlinkColumns_eq_ok (h : g.unlinkColumns x y = .ok g') :
    ∃ a b, x.table? = some a ∧ y.table? = some b ∧ g' = g.disconnect a x b y := by
  obtain ⟨a, ha, h⟩ := bind_eq_ok_iff.mp h
  obtain ⟨b, hb, h⟩ := bind_eq_ok_iff.mp h
  exact ⟨a, b, requireTable_eq_ok ha, requireTable_eq_ok hb, (Except.ok.inj h).symm⟩

theorem WellFormed.ofForeignKeys (keys : List ForeignKey) : (ofForeignKeys keys).WellFormed := by
  have hfold : ∀ g : JoinGraph, g.WellFormed → (keys.foldl (fun g key =>
      let a := Table.ofName key.fromTable
      let b := Table.ofName key.toTable
      g.connect a (a.column key.fromColumn .any) b (b.column key.toColumn .any)) g).WellFormed := by
    induction keys with
    | nil => exact fun _ hg => hg
    | cons key keys ih => exact fun g hg => ih _ (hg.connect rfl rfl)
  exact hfold _ .empty

/-- **Reachable graphs satisfy the invariant.** -/
theorem Reachable.wellFormed (hg : g.Reachable) : g.WellFormed := by
  induction hg with
  | empty => exact .empty
  | ofForeignKeys keys => exact .ofForeignKeys keys
  | linkColumns x y _ h ih =>
    obtain ⟨a, b, hx, hy, rfl⟩ := linkColumns_eq_ok h
    exact ih.connect hx hy
  | unlinkColumns x y _ h ih =>
    obtain ⟨a, b, -, -, rfl⟩ := unlinkColumns_eq_ok h
    exact ih.disconnect
  | eraseTable t _ ih => exact ih.eraseTable

end JoinGraph
end SqlBuilder
