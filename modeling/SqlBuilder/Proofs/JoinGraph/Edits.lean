import SqlBuilder.Proofs.JoinGraph.Paths

/-!
# Editing join graphs

An `Edit` is one change of a join graph: a link added, a link removed, a table removed. `edits`
makes changes in order. It never fails where every column has a table (`edits_ok`), and it leads
from a reachable graph to a reachable one (`Reachable.edits`).

`edits_consistent` says what is stored after any changes, entry by entry of the two-level map. The
parts of `WellFormed` are about look-ups; `Stores.eq_links` carries them over, because an entry is
what looking it up finds.
-/

namespace SqlBuilder

/-- A change of a join graph. -/
inductive Edit where
  | link (source target : Column)
  | unlink (source target : Column)
  | eraseTable (table : Table)

/-- Every column that the change names has a table. -/
def Edit.Bound : Edit → Prop
  | link x y | unlink x y => x.table?.isSome ∧ y.table?.isSome
  | eraseTable _ => True

namespace JoinGraph

variable {g g' : JoinGraph} {a b t : Table} {x y : Column} {e : Edit} {es : List Edit}
  {neighbours : TableMap (List Link)} {links : List Link}

/-- Makes one change. -/
def edit (g : JoinGraph) : Edit → Except BuildError JoinGraph
  | .link x y => g.linkColumns x y
  | .unlink x y => g.unlinkColumns x y
  | .eraseTable t => return g.eraseTable t

/-- Makes changes in order. -/
def edits (g : JoinGraph) : List Edit → Except BuildError JoinGraph
  | [] => return g
  | e :: es => do (← g.edit e).edits es

/-- A list of links is what the map holds under `a`, with neighbour `b`. -/
def Stores (g : JoinGraph) (a b : Table) (links : List Link) : Prop :=
  ∃ neighbours, (a, neighbours) ∈ g.edges ∧ (b, links) ∈ neighbours

/-! ## Changes that succeed -/

theorem requireTable_of_some (h : x.table? = some a) : x.requireTable = .ok a := by
  unfold Column.requireTable
  rw [h]
  rfl

theorem linkColumns_of_some (hx : x.table? = some a) (hy : y.table? = some b) :
    g.linkColumns x y = .ok (g.connect a x b y) := by
  unfold linkColumns
  rw [requireTable_of_some hx, requireTable_of_some hy]
  rfl

theorem unlinkColumns_of_some (hx : x.table? = some a) (hy : y.table? = some b) :
    g.unlinkColumns x y = .ok (g.disconnect a x b y) := by
  unfold unlinkColumns
  rw [requireTable_of_some hx, requireTable_of_some hy]
  rfl

/-- A change whose columns have tables is made. -/
theorem edit_ok (h : e.Bound) : ∃ g', g.edit e = .ok g' := by
  cases e with
  | link x y =>
    obtain ⟨a, hx⟩ := Option.isSome_iff_exists.mp h.1
    obtain ⟨b, hy⟩ := Option.isSome_iff_exists.mp h.2
    exact ⟨_, linkColumns_of_some hx hy⟩
  | unlink x y =>
    obtain ⟨a, hx⟩ := Option.isSome_iff_exists.mp h.1
    obtain ⟨b, hy⟩ := Option.isSome_iff_exists.mp h.2
    exact ⟨_, unlinkColumns_of_some hx hy⟩
  | eraseTable t => exact ⟨_, rfl⟩

theorem edits_cons (h : g.edit e = .ok g') : g.edits (e :: es) = g'.edits es := by
  rw [edits, h]
  rfl

theorem edits_ok (h : ∀ e ∈ es, e.Bound) : ∃ g', g.edits es = .ok g' := by
  induction es generalizing g with
  | nil => exact ⟨g, rfl⟩
  | cons e es ih =>
    obtain ⟨he, hes⟩ := List.forall_mem_cons.mp h
    obtain ⟨g₁, hg₁⟩ := edit_ok (g := g) he
    rw [edits_cons hg₁]
    exact ih hes

theorem Reachable.edit (hg : g.Reachable) (h : g.edit e = .ok g') : g'.Reachable := by
  cases e with
  | link x y => exact .linkColumns x y hg h
  | unlink x y => exact .unlinkColumns x y hg h
  | eraseTable t => exact Except.ok.inj h ▸ .eraseTable t hg

theorem Reachable.edits (hg : g.Reachable) (h : g.edits es = .ok g') : g'.Reachable := by
  induction es generalizing g with
  | nil => exact Except.ok.inj h ▸ hg
  | cons e es ih =>
    obtain ⟨g₁, hg₁, hrest⟩ := bind_eq_ok_iff.mp h
    exact ih (hg.edit hg₁) hrest

/-! ## Entries and look-ups -/

theorem Shape.entry_of_mem (hg : g.Shape) (h : (a, neighbours) ∈ g.edges) :
    g.edges.get? a = some neighbours :=
  TableMap.get?_of_mem hg.distinct h rfl

/-- What is stored for two tables is what looking them up finds, and it is not empty. -/
theorem Stores.eq_links (hg : g.Shape) (h : g.Stores a b links) :
    g.links a b = links ∧ links ≠ [] := by
  obtain ⟨neighbours, ha, hb⟩ := h
  have hentry := hg.entry_of_mem ha
  obtain ⟨hdistinct, hfilled⟩ := (hg.filled a neighbours hentry).1
  have hget : neighbours.get? b = some links := TableMap.get?_of_mem hdistinct hb rfl
  refine ⟨?_, ?_⟩
  · rw [links_eq, entry, hentry, Option.getD_some, hget, Option.getD_some]
  · rintro rfl
    exact hfilled b hget

/-- **What a join graph stores after any changes**, from the empty graph, through columns that
have tables. The changes all succeed. A link is stored from both of its ends. No entry of the map
and no list of links is empty, and each list is the one that looking it up finds. Within a list no
pair of names comes twice, the sources are columns of the table it is stored under, and the targets
are columns of the neighbour. Every neighbour is a table of the graph itself. -/
theorem edits_consistent (es : List Edit) (h : ∀ e ∈ es, e.Bound) :
    ∃ g, empty.edits es = .ok g ∧
      (∀ a b x y, g.Linked a b (x, y) ↔ g.Linked b a (y, x)) ∧
      (∀ a neighbours, (a, neighbours) ∈ g.edges → neighbours ≠ []) ∧
      (∀ a b links, g.Stores a b links →
        links ≠ [] ∧ g.links a b = links ∧ (links.map Link.names).Nodup ∧
        ∀ l ∈ links, l.source.table?.map Table.key = some a.key ∧
          l.target.table?.map Table.key = some b.key) ∧
      ∀ a, ∀ b ∈ g.neighbours a, ∃ c ∈ g.tables, c.key = b.key := by
  obtain ⟨g, hok⟩ := edits_ok (g := empty) h
  have hg : g.WellFormed := (Reachable.empty.edits hok).wellFormed
  refine ⟨g, hok, fun a b x y => ⟨hg.mirrored a b x y, hg.mirrored b a y x⟩, ?_, ?_, ?_⟩
  · exact fun a neighbours ha => (hg.shape.filled a neighbours (hg.shape.entry_of_mem ha)).2
  · intro a b links hstores
    obtain ⟨rfl, hne⟩ := hstores.eq_links hg.shape
    refine ⟨hne, rfl, hg.nodup a b, fun l hl => ?_⟩
    obtain ⟨p, q, hp, hpa, hq, hqb⟩ := hg.owned a b l hl
    rw [hp, hq, Option.map_some, Option.map_some, hpa, hqb]
    exact ⟨rfl, rfl⟩
  · intro a b hb
    have hlinks : g.links a b ≠ [] := hg.shape.exists_mem_neighbours_iff.mp ⟨b, hb, rfl⟩
    -- the links to a neighbour are stored from its end too, so it has an entry of its own
    exact hg.shape.exists_mem_tables_iff.mpr ⟨a, hg.links_symm hlinks⟩

/-- A table that refers to itself, declared from both sides, and removals of what is not there. -/
theorem edits_consistent_self_reference :
    let people := Table.ofName "people"
    let es : List Edit := [.link (people.column "id" .any) (people.column "boss" .any),
      .link (people.column "boss" .any) (people.column "id" .any),
      .link ((Table.ofName "pets").column "owner" .any) (people.column "id" .any),
      .unlink ((Table.ofName "pets").column "owner" .any) (people.column "boss" .any),
      .eraseTable (.ofName "towns")]
    (∀ e ∈ es, e.Bound) ∧ ∃ g, empty.edits es = .ok g ∧
      (g.links people people).map Link.names = [("id", "boss"), ("boss", "id")] ∧
      (∀ a b x y, g.Linked a b (x, y) ↔ g.Linked b a (y, x)) ∧
      ∀ a, ∀ b ∈ g.neighbours a, ∃ c ∈ g.tables, c.key = b.key := by
  intro people es
  have hbound : ∀ e ∈ es, e.Bound := by simp [es, Edit.Bound, Table.column]
  have hnames : (empty.edits es).toOption.map (fun g => (g.links people people).map Link.names) =
      some [("id", "boss"), ("boss", "id")] := by decide +kernel
  obtain ⟨g, hok, hmirrored, -, -, hindexed⟩ := edits_consistent es hbound
  rw [hok] at hnames
  exact ⟨hbound, g, hok, Option.some.inj hnames, hmirrored, hindexed⟩

end JoinGraph
end SqlBuilder
