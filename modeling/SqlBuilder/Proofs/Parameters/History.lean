import Mathlib.Data.List.Induction
import Mathlib.Logic.Function.Basic
import SqlBuilder.Proofs.Parameters.Merge

/-!
# Histories of parameters

Several parameters are bound to and merged into each other, in any order. `Operation` is one step of
such a history and `after` is what the steps make of parameters that are empty at first. `given`
follows the same history without looking at any parameters: it lists the literals that each of them
was given, directly or by what was merged into it. At every point the parameters are what binding
the given literals leaves (`after_eq`), so they list first occurrences (`Lists`). No operation does
more than append (`prefix_run`), so an ordinal that was returned once is returned ever after
(`bind_of_prefix`). `history_firstSeen` puts this together.
-/

namespace SqlBuilder.Parameters

/-- An operation on one of several parameters, which are told apart by numbers. -/
inductive Operation where
  /-- A literal is bound by its value. -/
  | bind (target : Nat) (value : Value)
  /-- The value of a node is bound. -/
  | bindNode (target id : Nat) (value : Value)
  /-- The parameters at `source` are merged into those at `target`. -/
  | merge (target source : Nat)

namespace Operation

def run (ps : Nat → Parameters) : Operation → Nat → Parameters
  | bind i v => Function.update ps i ((ps i).bindValue v).2
  | bindNode i id v => Function.update ps i ((ps i).bindNodeValue id v).2
  | merge i j => Function.update ps i ((ps i).merge (ps j))

/-- Adds to the literals that were given so far. Merging gives all that the source was given. -/
def give (given : Nat → List Binding) : Operation → Nat → List Binding
  | bind i v => Function.update given i (given i ++ [.literal v])
  | bindNode i id v => Function.update given i (given i ++ [.node id v])
  | merge i j => Function.update given i (given i ++ given j)

end Operation

/-- What operations make of parameters that are empty at first. -/
def after (ops : List Operation) : Nat → Parameters := ops.foldl Operation.run fun _ => empty

/-- The literals that operations give to parameters, in order and with repetitions. -/
def given (ops : List Operation) : Nat → List Binding := ops.foldl Operation.give fun _ => []

/-- The parameters list what was given: each key once, in first-seen order, with its first value. -/
structure Lists (t : Parameters) (given : List Binding) : Prop where
  /-- No two entries that are bound by value hold the same literal. -/
  literal_unique : ∀ (m n : Nat) (v w : Value), t.entries[m]? = some (.literal v) →
    t.entries[n]? = some (.literal w) → v.same w = true → m = n
  /-- No two entries belong to the same node. -/
  node_unique : ∀ (m n id : Nat) (v w : Value), t.entries[m]? = some (.node id v) →
    t.entries[n]? = some (.node id w) → m = n
  /-- A literal is looked up among the entries bound by value, and not among those of nodes. -/
  valueOrdinal?_iff : ∀ v k, t.valueOrdinal? v = some k ↔
    ∃ (n : Nat) (w : Value), t.entries[n]? = some (.literal w) ∧ w.same v = true ∧ k = n + 1
  /-- A node is looked up among the entries of nodes, whatever values they have. -/
  nodeOrdinal?_iff : ∀ id k, t.ordinal? (.node id) = some k ↔
    ∃ (n : Nat) (w : Value), t.entries[n]? = some (.node id w) ∧ k = n + 1
  keys : t.keys = (given.map Binding.key).eraseDups
  /-- There are as many parameters as different keys. -/
  size : t.size = (given.map Binding.key).eraseDups.length
  values : t.values.map some =
    (given.map Binding.key).eraseDups.map (Binding.firstValue? given)
  /-- Ordinals count from 1. -/
  toList : t.toList = (List.range' 1 t.size).zip t.values

variable {t u : Parameters} {ps : Nat → Parameters} {gs : Nat → List Binding} {b c : Binding}
  {k : Binding.Key} {m n : Nat}

/-! ## Entries by their ordinals -/

theorem ordinal?_eq_some_iff_getElem? :
    t.ordinal? k = some n ↔
      ∃ (m : Nat) (b : Binding), t.entries[m]? = some b ∧ b.key = k ∧ n = m + 1 := by
  rw [ordinal?_eq_some_iff]
  constructor
  · rintro ⟨hk, rfl⟩
    have hkey : t.keys[t.keys.idxOf k]? = some k := List.getElem?_idxOf hk
    rw [keys, List.getElem?_map, Option.map_eq_some_iff] at hkey
    obtain ⟨b, hb, hbk⟩ := hkey
    exact ⟨_, b, hb, hbk, rfl⟩
  · rintro ⟨m, b, hb, rfl, rfl⟩
    have hkey : t.keys[m]? = some b.key := by
      rw [keys, List.getElem?_map, hb]
      rfl
    exact ⟨List.mem_of_getElem? hkey, position_of_getElem? hkey⟩

/-- Two entries with the same key are one entry. -/
theorem index_unique (hm : t.entries[m]? = some b) (hn : t.entries[n]? = some c)
    (h : b.key = c.key) : m = n := by
  have hfst := ordinal?_eq_some_iff_getElem?.mpr ⟨m, b, hm, h, rfl⟩
  have hsnd := ordinal?_eq_some_iff_getElem?.mpr ⟨n, c, hn, rfl, rfl⟩
  exact Nat.succ.inj (Option.some.inj (hfst.symm.trans hsnd))

theorem firstValue?_of_mem (h : b ∈ t.entries) :
    Binding.firstValue? t.entries b.key = some b.value := by
  obtain ⟨c, hc⟩ : ∃ c, t.entries.find? (·.key = b.key) = some c :=
    Option.isSome_iff_exists.mp (List.find?_isSome.mpr ⟨b, h, by simp⟩)
  have hkey : c.key = b.key := by simpa using List.find?_some hc
  have hcb : c = b :=
    List.inj_on_of_nodup_map t.nodup_keys (List.mem_of_find?_eq_some hc) h hkey
  rw [Binding.firstValue?, hc, Option.map_some, hcb]

theorem toList_eq (t : Parameters) : t.toList = (List.range' 1 t.size).zip t.values := by
  have hlength : t.values.length = t.size := List.length_map _
  refine List.ext_getElem (by simp [toList, hlength]) fun i _ _ => ?_
  simp [toList, Nat.add_comm]

/-- What binding literals one after the other leaves lists them. -/
theorem lists_bindAll (bs : List Binding) : (empty.bindAll bs).Lists bs where
  literal_unique m n v w hv hw h := by
    obtain rfl := (Value.same_iff v w).mp h
    exact index_unique hv hw rfl
  node_unique m n id v w hv hw := index_unique hv hw rfl
  valueOrdinal?_iff v k := by
    rw [valueOrdinal?, ordinal?_eq_some_iff_getElem?]
    constructor
    · rintro ⟨n, b, hb, hkey, rfl⟩
      cases b with
      | literal w =>
        have hsame : w.same v = true := (Value.same_iff w v).mpr (Binding.Key.literal.inj hkey)
        exact ⟨n, w, hb, hsame, rfl⟩
      | node id w => exact Binding.Key.noConfusion hkey
    · rintro ⟨n, w, hw, hsame, rfl⟩
      obtain rfl := (Value.same_iff w v).mp hsame
      exact ⟨n, _, hw, rfl, rfl⟩
  nodeOrdinal?_iff id k := by
    rw [ordinal?_eq_some_iff_getElem?]
    constructor
    · rintro ⟨n, b, hb, hkey, rfl⟩
      cases b with
      | literal w => exact Binding.Key.noConfusion hkey
      | node id' w =>
        cases hkey
        exact ⟨n, w, hb, rfl⟩
    · rintro ⟨n, w, hw, rfl⟩
      exact ⟨n, _, hw, rfl, rfl⟩
  keys := keys_bindAll_empty bs
  size := by rw [← keys_bindAll_empty, length_keys]
  values := by
    -- An entry holds the first value of its key: no other entry has the key, and binding never
    -- replaces what an earlier literal left.
    rw [← keys_bindAll_empty, Parameters.values, Parameters.keys, List.map_map, List.map_map]
    refine List.map_congr_left fun b hb => ?_
    rw [Function.comp_apply, Function.comp_apply, ← firstValue?_of_mem hb, firstValue?_bindAll]
    rfl
  toList := toList_eq _

/-! ## One operation -/

/-- **An operation keeps that parameters are what binding the given literals leaves.** -/
theorem Operation.run_eq (h : ∀ i, ps i = empty.bindAll (gs i)) (op : Operation) (i : Nat) :
    op.run ps i = empty.bindAll (op.give gs i) := by
  cases op with
  | bind j v =>
    rw [run, give, Function.update_apply, Function.update_apply, h i, h j]
    split
    · exact (bindAll_append _ _ [.literal v]).symm
    · rfl
  | bindNode j id v =>
    rw [run, give, Function.update_apply, Function.update_apply, h i, h j]
    split
    · exact (bindAll_append _ _ [.node id v]).symm
    · rfl
  | merge j j' =>
    rw [run, give, Function.update_apply, Function.update_apply, h i, h j, h j', merge_bindAll,
      ← bindAll_append]
    split <;> rfl

theorem prefix_update (ps : Nat → Parameters) (j i : Nat) (bs : List Binding) :
    (ps i).entries <+: (Function.update ps j ((ps j).bindAll bs) i).entries := by
  rw [Function.update_apply]
  split
  · subst i
    exact prefix_bindAll (ps j) bs
  · exact List.prefix_refl _

/-- **An operation leaves every entry where it is**, in all parameters. -/
theorem Operation.prefix_run (ps : Nat → Parameters) (op : Operation) (i : Nat) :
    (ps i).entries <+: (op.run ps i).entries := by
  cases op with
  | bind j v => exact prefix_update ps j i [.literal v]
  | bindNode j id v => exact prefix_update ps j i [.node id v]
  | merge j j' => exact prefix_update ps j i (ps j').entries

/-! ## Histories -/

theorem after_append (ops later : List Operation) :
    after (ops ++ later) = later.foldl Operation.run (after ops) := List.foldl_append

theorem after_eq (ops : List Operation) (i : Nat) : after ops i = empty.bindAll (given ops i) := by
  -- From the end of the history, so that the hypothesis covers all parameters before the last
  -- operation: merging reads two of them.
  induction ops using List.reverseRecOn generalizing i with
  | nil => rfl
  | append_singleton ops op ih =>
    rw [after_append, given, List.foldl_append]
    exact op.run_eq ih i

theorem prefix_foldl_run (ops : List Operation) (i : Nat) :
    (ps i).entries <+: (ops.foldl Operation.run ps i).entries := by
  induction ops generalizing ps with
  | nil => exact List.prefix_refl _
  | cons op ops ih => exact (op.prefix_run ps i).trans ih

/-- A key that was bound once is found under the same ordinal in all that comes later. -/
theorem bind_of_prefix (h : (t.bind b).2.entries <+: u.entries) (hkey : b.key = c.key) :
    u.bind c = ((t.bind b).1, u) := by
  have hlater : u.ordinal? c.key = some (t.bind b).1 :=
    hkey ▸ ordinal?_of_prefix h (ordinal?_bind t b)
  obtain ⟨hmem, hposition⟩ := ordinal?_eq_some_iff.mp hlater
  rw [bind_of_mem hmem, hposition]

/-- Binding returns the ordinal that looking the key up gives, or the next one. -/
theorem bind_fst (t : Parameters) (b : Binding) :
    (t.bind b).1 = (t.ordinal? b.key).getD (t.size + 1) := by
  by_cases h : b.key ∈ t.keys
  · rw [bind_of_mem h, ordinal?_eq_some_position h, Option.getD_some]
  · rw [bind_fst_of_notMem h, ordinal?_eq_none_iff.mpr h, Option.getD_none]

/-- The value that was under the key stays there, or else the one that was bound. -/
theorem firstValue?_of_prefix (h : (t.bind b).2.entries <+: u.entries) :
    Binding.firstValue? u.entries b.key =
      (Binding.firstValue? t.entries b.key).or (some b.value) := by
  have hbound := firstValue?_bindAll t [b] b.key
  rw [Binding.firstValue?_cons, if_pos rfl] at hbound
  obtain ⟨rest, hrest⟩ := h
  rw [← hrest, Binding.firstValue?_append]
  change (Binding.firstValue? (t.bindAll [b]).entries b.key).or _ = _
  rw [hbound]
  cases Binding.firstValue? t.entries b.key <;> rfl

/-- An operation that binds a literal returns the ordinal that looking the key up gives then, and
every later operation that binds the key returns it too. -/
theorem bind_recurs (ops later : List Operation) (i : Nat) (b : Binding) (op : Operation)
    (hop : op.run (after ops) i = ((after ops i).bind b).2) :
    let r := (after ops i).bind b
    let u := after (ops ++ op :: later) i
    r.1 = ((after ops i).ordinal? b.key).getD ((after ops i).size + 1) ∧
    (∀ k, r.1 = k ↔ r.2.ordinal? b.key = some k) ∧
    r.2.entries <+: u.entries ∧ ∀ c : Binding, b.key = c.key → u.bind c = (r.1, u) := by
  intro r u
  have hlater : r.2.entries <+: u.entries := by
    show ((after ops i).bind b).2.entries <+: (after (ops ++ op :: later) i).entries
    rw [after_append, List.foldl_cons, ← hop]
    exact prefix_foldl_run later i
  refine ⟨bind_fst _ b, fun k => ?_, hlater, fun c => bind_of_prefix hlater⟩
  rw [ordinal?_bind, Option.some_inj]

/-- **Parameters list the first occurrences of what they were given, over every history.**

After any operations on any number of parameters, each of them lists what it was given. Whatever is
done later, its entries stay where they are with their keys and values, so it only grows at the end.
Binding a literal returns the ordinal under which it is found then, and binding an equal one returns
the same ordinal ever after and adds nothing. The same holds of the value of a node, which is looked
up by the node alone, so that the value that was given first stays. -/
theorem history_firstSeen (ops later : List Operation) (i : Nat) :
    let t := after ops i
    t.Lists (given ops i) ∧
    t.entries <+: (after (ops ++ later) i).entries ∧
    (∀ v : Value,
      let r := t.bindValue v
      let u := after (ops ++ .bind i v :: later) i
      r.1 = (t.valueOrdinal? v).getD (t.size + 1) ∧
      (∀ k, r.1 = k ↔ r.2.valueOrdinal? v = some k) ∧
      ∀ w : Value, v.same w = true → u.bindValue w = (r.1, u)) ∧
    ∀ (id : Nat) (v : Value),
      let r := t.bindNodeValue id v
      let u := after (ops ++ .bindNode i id v :: later) i
      r.1 = (t.ordinal? (.node id)).getD (t.size + 1) ∧
      (∀ k, r.1 = k ↔ r.2.ordinal? (.node id) = some k) ∧
      (∀ w : Value, u.bindNodeValue id w = (r.1, u)) ∧
      Binding.firstValue? u.entries (.node id) =
        (Binding.firstValue? t.entries (.node id)).or (some v) := by
  intro t
  refine ⟨?_, ?_, fun v => ?_, fun id v => ?_⟩
  · show (after ops i).Lists (given ops i)
    rw [after_eq]
    exact lists_bindAll _
  · rw [after_append]
    exact prefix_foldl_run later i
  · obtain ⟨hfst, hfound, -, hagain⟩ :=
      bind_recurs ops later i (.literal v) (.bind i v) (Function.update_self ..)
    refine ⟨hfst, hfound, fun w hw => hagain (.literal w) ?_⟩
    rw [(Value.same_iff v w).mp hw]
  · obtain ⟨hfst, hfound, hlater, hagain⟩ :=
      bind_recurs ops later i (.node id v) (.bindNode i id v) (Function.update_self ..)
    refine ⟨hfst, hfound, fun w => hagain (.node id w) rfl, ?_⟩
    exact firstValue?_of_prefix hlater

/-- Two parameters of which each is merged into the other. The literal `[NaN]` is found again by its
bits, after a node with that value and a node with another value for the same identity. -/
theorem history_firstSeen_merged :
    let nan : Value := .float ⟨0x7ff8000000000001⟩
    let ops : List Operation := [.bindNode 0 7 (.array [nan]), .bind 1 (.float ⟨0⟩),
      .bindNode 1 7 .null, .merge 1 0, .bind 1 (.array [nan])]
    let later : List Operation :=
      [.bind 0 .null, .merge 0 1, .bind 0 (.float ⟨0x8000000000000000⟩), .merge 1 0]
    let t := after ops 1
    let u := after (ops ++ .bind 1 (.array [nan]) :: later) 1
    t.values = [.float ⟨0⟩, .null, .array [nan]] ∧
      u.values = [.float ⟨0⟩, .null, .array [nan], .null, .float ⟨0x8000000000000000⟩] ∧
      (Value.array [nan]).same (.array [nan]) = true ∧
      u.bindValue (.array [nan]) = (3, u) := by
  intro nan ops later t u
  have hsame : (Value.array [nan]).same (.array [nan]) = true := by decide
  have hordinal : (t.bindValue (.array [nan])).1 = 3 := by decide
  refine ⟨by decide, by decide, hsame, ?_⟩
  rw [← hordinal]
  exact ((history_firstSeen ops later 1).2.2.1 (.array [nan])).2.2 (.array [nan]) hsame

end SqlBuilder.Parameters
