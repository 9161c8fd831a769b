import SqlBuilder.Proofs.JoinGraph.Undo

/-!
# Join graphs of a schema

What the keys of a schema make of a join graph, level by level of its map: tables stand in the order
in which the keys first mention them, neighbours in the order in which keys first join them to their
table, and the links between two tables in the order in which keys first declare them. These orders
decide which of equally short joins are inferred.

Every key is stored in two directions, one after the other. So the graph is built by storing
directions (`ofForeignKeys_eq`), and each level lists what the directions name at it, in first-seen
order (`tables_stored`, `neighbours_stored`, `links_stored`): a key that the map has keeps its
place, and a new one goes to the end. A direction that is stored already changes nothing, so a key
that is declared again, from either of its ends, can be left out.
-/

namespace SqlBuilder

namespace ForeignKey

/-- The same key, declared from its other end. -/
def flip (k : ForeignKey) : ForeignKey := ⟨k.toTable, k.toColumn, k.fromTable, k.fromColumn⟩

def columns (k : ForeignKey) : String × String := (k.fromColumn, k.toColumn)

/-- The tables that a key joins to a table: for each end that is the table, the other end. -/
def partners (a : String) (k : ForeignKey) : List String :=
  (if k.fromTable = a then [k.toTable] else []) ++ if k.toTable = a then [k.fromTable] else []

/-- The column pairs that a key declares between two tables, each leading from `a` to `b`. A key of
a table with itself leads both ways, and the way it is declared comes first. -/
def pairs (a b : String) (k : ForeignKey) : List (String × String) :=
  if a = b then
    if k.fromTable = a ∧ k.toTable = a then [k.columns, k.columns.swap] else []
  else if k.fromTable = a ∧ k.toTable = b then [k.columns]
  else if k.fromTable = b ∧ k.toTable = a then [k.columns.swap]
  else []

/-- Every key as it is declared and, right after that, from its other end. -/
def directions (keys : List ForeignKey) : List ForeignKey := keys.flatMap fun k => [k, k.flip]

end ForeignKey

/-- The link between columns of two tables of the database. -/
def Link.ofNames (a b : String) (names : String × String) : Link :=
  ⟨(Table.ofName a).column names.1 .any, (Table.ofName b).column names.2 .any⟩

/-! ## First-seen order -/

theorem eraseDups_concat {α : Type} [BEq α] [LawfulBEq α] (xs : List α) (x : α) :
    (xs ++ [x]).eraseDups = if x ∈ xs then xs.eraseDups else xs.eraseDups ++ [x] := by
  rw [List.eraseDups_append]
  by_cases h : x ∈ xs
  · simp [List.removeAll, h]
  · simp [List.removeAll, h, List.eraseDups_cons]

theorem Table.key_ofName_inj {m n : String} : (ofName m).key = (ofName n).key ↔ m = n := by
  simp [ofName, key, queryId?]

/-- **A map whose keys are names in first-seen order keeps that order** when a name is set. -/
theorem TableMap.keys_alter_ofName {α : Type} {m : TableMap α} {names : List String}
    (h : m.keys = names.eraseDups.map Table.ofName) (f : Option α → α) (n : String) :
    (m.alter f (.ofName n)).keys = (names ++ [n]).eraseDups.map Table.ofName := by
  have hsome : (m.get? (.ofName n)).isSome = true ↔ n ∈ names := by
    rw [← not_iff_not, Bool.not_eq_true, Option.isSome_eq_false_iff, Option.isNone_iff_eq_none,
      get?_eq_none_iff, h]
    simp only [List.mem_map, List.mem_eraseDups, forall_exists_index, and_imp,
      forall_apply_eq_imp_iff₂, ne_eq, Table.key_ofName_inj]
    exact ⟨fun hall hn => hall n hn rfl, fun hn k hk e => hn (e ▸ hk)⟩
  rw [keys_alter, eraseDups_concat]
  by_cases hn : n ∈ names
  · rw [if_pos (hsome.mpr hn), if_pos hn, h]
  · rw [if_neg (mt hsome.mp hn), if_neg hn, h, List.map_append]
    rfl

namespace JoinGraph

/-! ## Storing directions -/

variable {k : ForeignKey} {ks keys before after : List ForeignKey}

/-- Links that are names in first-seen order keep that order when one is added. -/
theorem Link.addTo_ofNames (a b : String) (names : List (String × String)) (p : String × String) :
    Link.addTo (Link.ofNames a b p) (some (names.eraseDups.map (Link.ofNames a b))) =
      (names ++ [p]).eraseDups.map (Link.ofNames a b) := by
  have hany : (names.eraseDups.map (Link.ofNames a b)).any
      (·.hasNames (Link.ofNames a b p).source (Link.ofNames a b p).target) = true ↔
        p ∈ names := by
    simp only [List.any_eq_true, Link.hasNames_iff, List.mem_map, List.mem_eraseDups]
    constructor
    · rintro ⟨_, ⟨q, hq, rfl⟩, hnames⟩
      exact (show q = p from hnames) ▸ hq
    · exact fun hp => ⟨_, ⟨p, hp, rfl⟩, rfl⟩
  rw [Link.addTo, Option.getD_some, eraseDups_concat]
  by_cases hp : p ∈ names
  · rw [if_pos (hany.mpr hp), if_pos hp]
  · rw [if_neg (mt hany.mp hp), if_neg hp, List.map_append]
    rfl

/-- Stores a key in the direction in which it is declared. -/
def store (g : JoinGraph) (k : ForeignKey) : JoinGraph :=
  g.insertLink (.ofName k.fromTable) ((Table.ofName k.fromTable).column k.fromColumn .any)
    (.ofName k.toTable) ((Table.ofName k.toTable).column k.toColumn .any)

/-- The graph that stores directions in order. -/
def stored (ks : List ForeignKey) : JoinGraph := ks.foldl store empty

theorem stored_concat (ks : List ForeignKey) (k : ForeignKey) :
    stored (ks ++ [k]) = (stored ks).store k := List.foldl_concat _ _ _ _

theorem ofForeignKeys_eq (keys : List ForeignKey) :
    ofForeignKeys keys = stored (ForeignKey.directions keys) := by
  unfold stored ForeignKey.directions
  rw [List.foldl_flatMap]
  rfl

theorem tables_stored (ks : List ForeignKey) :
    (stored ks).tables = (ks.map ForeignKey.fromTable).eraseDups.map Table.ofName := by
  induction ks using List.reverseRecOn with
  | nil => rfl
  | append_singleton ks k ih =>
    rw [stored_concat, List.map_append]
    exact TableMap.keys_alter_ofName ih _ k.fromTable

theorem neighbours_stored (a : String) (ks : List ForeignKey) :
    (stored ks).neighbours (.ofName a) =
      ((ks.filter (·.fromTable = a)).map ForeignKey.toTable).eraseDups.map Table.ofName := by
  induction ks using List.reverseRecOn with
  | nil => rfl
  | append_singleton ks k ih =>
    rw [stored_concat, store, insertLink, neighbours, TableMap.get?_alter, List.filter_append,
      List.map_append]
    by_cases hk : k.fromTable = a
    · rw [if_pos (Table.key_ofName_inj.mpr hk), hk]
      let link : Link :=
        ⟨(Table.ofName a).column k.fromColumn .any, (Table.ofName k.toTable).column k.toColumn .any⟩
      have hkeys := TableMap.keys_alter_ofName ih (JoinGraph.Link.addTo link) k.toTable
      simpa [hk] using hkeys
    · rw [if_neg (mt Table.key_ofName_inj.mp hk), List.filter_cons_of_neg (by simpa using hk)]
      simpa [neighbours] using ih

theorem links_stored (a b : String) (ks : List ForeignKey) :
    (stored ks).links (.ofName a) (.ofName b) =
      ((ks.filter fun k => k.fromTable = a ∧ k.toTable = b).map
        ForeignKey.columns).eraseDups.map (Link.ofNames a b) := by
  induction ks using List.reverseRecOn with
  | nil => rfl
  | append_singleton ks k ih =>
    rw [stored_concat, store, links_insertLink, List.filter_append, List.map_append]
    simp only [Table.key_ofName_inj]
    by_cases hk : k.fromTable = a ∧ k.toTable = b
    · rw [if_pos hk, hk.1, hk.2, ih]
      have hadded := Link.addTo_ofNames a b
        ((ks.filter fun k => k.fromTable = a ∧ k.toTable = b).map ForeignKey.columns) k.columns
      rw [List.filter_cons_of_pos (by simpa using hk), List.filter_nil, List.map_singleton]
      exact hadded
    · rw [if_neg hk, List.filter_cons_of_neg (by simpa using hk)]
      simpa using ih

/-! ## What keys name -/

theorem map_fromTable_directions (keys : List ForeignKey) :
    (ForeignKey.directions keys).map ForeignKey.fromTable =
      keys.flatMap fun k => [k.fromTable, k.toTable] := by
  unfold ForeignKey.directions
  rw [List.map_flatMap]
  rfl

theorem toTable_directions (a : String) (keys : List ForeignKey) :
    ((ForeignKey.directions keys).filter (·.fromTable = a)).map ForeignKey.toTable =
      keys.flatMap (·.partners a) := by
  unfold ForeignKey.directions
  rw [List.filter_flatMap, List.map_flatMap]
  refine List.flatMap_congr fun k _ => ?_
  by_cases hfrom : k.fromTable = a <;> by_cases hto : k.toTable = a <;>
    simp [ForeignKey.partners, ForeignKey.flip, hfrom, hto]

theorem columns_directions (a b : String) (keys : List ForeignKey) :
    ((ForeignKey.directions keys).filter fun k => k.fromTable = a ∧ k.toTable = b).map
      ForeignKey.columns = keys.flatMap (·.pairs a b) := by
  unfold ForeignKey.directions
  rw [List.filter_flatMap, List.map_flatMap]
  refine List.flatMap_congr fun k _ => ?_
  by_cases hab : a = b
  · subst hab
    by_cases hfrom : k.fromTable = a <;> by_cases hto : k.toTable = a <;>
      simp [ForeignKey.pairs, ForeignKey.flip, ForeignKey.columns, hfrom, hto]
  · by_cases hforth : k.fromTable = a ∧ k.toTable = b
    · obtain ⟨rfl, rfl⟩ := hforth
      simp [ForeignKey.pairs, ForeignKey.flip, hab, Ne.symm hab]
    · by_cases hback : k.fromTable = b ∧ k.toTable = a
      · obtain ⟨rfl, rfl⟩ := hback
        simp [ForeignKey.pairs, ForeignKey.flip, ForeignKey.columns, hab, Ne.symm hab]
      · have hback' : ¬ (k.flip.fromTable = a ∧ k.flip.toTable = b) := fun h => hback h.symm
        simp [ForeignKey.pairs, hab, hforth, hback, hback']

/-! ## Keys that are declared again -/

theorem linked_stored (h : k ∈ ks) :
    (stored ks).Linked (.ofName k.fromTable) (.ofName k.toTable) k.columns := by
  rw [linked_iff, links_stored]
  refine List.mem_map.mpr ⟨.ofNames _ _ k.columns, List.mem_map_of_mem ?_, rfl⟩
  rw [List.mem_eraseDups]
  exact List.mem_map_of_mem (List.mem_filter.mpr ⟨h, by simp⟩)

theorem store_of_mem (h : k ∈ ks) : (stored ks).store k = stored ks :=
  insertLink_of_linked (linked_stored h)

/-- Directions that are stored already can be left out. -/
theorem stored_of_mem (h : k ∈ before) :
    stored (before ++ k :: after) = stored (before ++ after) := by
  unfold stored
  rw [List.foldl_append, List.foldl_append, List.foldl_cons]
  exact congrArg (after.foldl store) (store_of_mem h)

theorem directions_append_cons : ForeignKey.directions (before ++ k :: after) =
    ForeignKey.directions before ++ k :: k.flip :: ForeignKey.directions after := by
  simp [ForeignKey.directions]

theorem mem_directions : k ∈ ForeignKey.directions keys ↔ k ∈ keys ∨ k.flip ∈ keys := by
  have hflip : ∀ j : ForeignKey, k = j.flip ↔ k.flip = j := by
    intro j
    constructor <;> rintro rfl <;> rfl
  simp only [ForeignKey.directions, List.mem_flatMap, List.mem_cons, List.not_mem_nil, or_false,
    hflip]
  constructor
  · rintro ⟨j, hj, rfl | rfl⟩
    · exact .inl hj
    · exact .inr hj
  · rintro (h | h)
    · exact ⟨k, h, .inl rfl⟩
    · exact ⟨_, h, .inr rfl⟩

/-- **The graph of a schema's keys**, for any list of keys. Its tables are the names that the keys
mention, each at its first mention. The neighbours of a table are its partners, each at the first
key that joins the two. The links from one table to another are the column pairs that keys declare
between the two, from either end, each at its first declaration and turned to lead that way. A key
that comes after the same key, declared from whichever end, makes no difference to the graph. -/
theorem ofForeignKeys_order (keys : List ForeignKey) :
    (ofForeignKeys keys).tables =
      (keys.flatMap fun k => [k.fromTable, k.toTable]).eraseDups.map Table.ofName ∧
    (∀ a, (ofForeignKeys keys).neighbours (.ofName a) =
      (keys.flatMap (·.partners a)).eraseDups.map Table.ofName) ∧
    (∀ a b, (ofForeignKeys keys).links (.ofName a) (.ofName b) =
      (keys.flatMap (·.pairs a b)).eraseDups.map (Link.ofNames a b)) ∧
    ∀ before k after, keys = before ++ k :: after → k ∈ before ∨ k.flip ∈ before →
      ofForeignKeys (before ++ after) = ofForeignKeys keys := by
  simp only [ofForeignKeys_eq]
  refine ⟨?_, fun a => ?_, fun a b => ?_, ?_⟩
  · rw [tables_stored, map_fromTable_directions]
  · rw [neighbours_stored, toTable_directions]
  · rw [links_stored, columns_directions]
  · rintro before k after rfl hagain
    have hforth : k ∈ ForeignKey.directions before := mem_directions.mpr hagain
    have hback : k.flip ∈ ForeignKey.directions before := mem_directions.mpr hagain.symm
    rw [directions_append_cons, stored_of_mem hforth, stored_of_mem hback, ForeignKey.directions,
      List.flatMap_append]
    rfl

/-- A key that comes again from its other end, between a key of a table with itself and a second key
between the same tables. -/
theorem ofForeignKeys_order_from_both_ends :
    let people := Table.ofName "people"
    let pets := Table.ofName "pets"
    let k : ForeignKey := ⟨"people", "id", "pets", "owner"⟩
    let before : List ForeignKey := [k.flip, ⟨"people", "id", "people", "boss"⟩]
    let after : List ForeignKey := [⟨"pets", "sitter", "people", "id"⟩]
    let g := ofForeignKeys (before ++ k :: after)
    k.flip ∈ before ∧ g.tables.map Table.name = ["pets", "people"] ∧
      (g.neighbours people).map Table.name = ["pets", "people"] ∧
      (g.links people pets).map Link.names = [("id", "owner"), ("id", "sitter")] ∧
      (g.links people people).map Link.names = [("id", "boss"), ("boss", "id")] ∧
      ofForeignKeys (before ++ after) = g := by
  intro people pets k before after g
  have hflip : k.flip ∈ before := List.mem_cons_self
  obtain ⟨htables, hneighbours, hlinks, hagain⟩ := ofForeignKeys_order (before ++ k :: after)
  refine ⟨hflip, ?_, ?_, ?_, ?_, hagain before k after rfl (.inr hflip)⟩
  · rw [htables]
    decide +kernel
  · rw [hneighbours]
    decide +kernel
  · rw [hlinks]
    decide +kernel
  · rw [hlinks]
    decide +kernel

end JoinGraph
end SqlBuilder
