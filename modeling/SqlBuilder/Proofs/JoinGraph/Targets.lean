import SqlBuilder.Proofs.JoinGraph.Joins

/-!
# Order and repetition of targets

Targets are taken one after the other, and each finds the tables that earlier ones brought in. What
a list of targets gives is still a matter of which tables are among them.

* `resolve_append`: targets that come later only add to what the earlier ones gave, and an error of
  the earlier ones stays. A target that is there already adds nothing (`resolve_of_arrived`).
* `Brings.entry_mem`: the tables that are joined are the ones on the paths of the targets, and each
  is joined on the link from the table before it. Neither depends on an order.

`inferJoins_targets` states both for inference.
-/

namespace SqlBuilder

/-- What a join brings in and on which condition, tables told apart by their keys. -/
def Join.entry (item : Join) : Table.Key × Option Condition := (item.target.key, item.on?)

namespace JoinGraph

variable {g : JoinGraph} {source t u : Table} {previous : Nat → Option Nat}
  {joined ts us before after : List Table} {items items' first : List Join} {item item' : Join}
  {e : JoinError}

/-! ## Targets in turn -/

/-- **Later targets are resolved with what the earlier ones have joined.** -/
theorem resolve_append : g.resolve previous source joined (ts ++ us) = do
    let first ← g.resolve previous source joined ts
    let rest ← g.resolve previous source (joined ++ first.map Join.target) us
    return first ++ rest := by
  induction ts generalizing joined with
  | nil => simp [resolve]
  | cons t ts ih =>
    simp only [List.cons_append, resolve, ih, bind_assoc, pure_bind, List.map_append,
      List.append_assoc]

/-- A target that is the source or was joined earlier adds nothing. -/
theorem resolve_of_arrived (h : (t == source || joined.any (· == t)) = true) :
    g.resolve previous source joined (t :: ts) = g.resolve previous source joined ts := by
  have hwalk : g.walk previous source t g.edges.length joined t [] = pure [] := walk_of_arrived h
  simp [resolve, hwalk]

theorem exists_prefix_of_append (hts : ts ≠ [])
    (h : g.inferJoins source (ts ++ us) = .ok items) :
    ∃ first, g.inferJoins source ts = .ok first ∧ first <+: items := by
  rw [inferJoins_of_ne_nil (List.append_ne_nil_of_left_ne_nil hts us), resolve_append] at h
  obtain ⟨first, hfirst, h⟩ := bind_eq_ok_iff.mp h
  obtain ⟨rest, -, h⟩ := bind_eq_ok_iff.mp h
  refine ⟨first, ?_, rest, Except.ok.inj h⟩
  rw [inferJoins_of_ne_nil hts, hfirst]

theorem inferJoins_append_error (hts : ts ≠ []) (h : g.inferJoins source ts = .error e) :
    g.inferJoins source (ts ++ us) = .error e := by
  rw [inferJoins_of_ne_nil hts] at h
  rw [inferJoins_of_ne_nil (List.append_ne_nil_of_left_ne_nil hts us), resolve_append, h]
  rfl

/-- **A target that is there already can be left out**, if another target remains. -/
theorem inferJoins_of_present (hne : before ++ after ≠ [])
    (h : source.key = t.key ∨ ∃ items, g.inferJoins source before = .ok items ∧
      ∃ item ∈ items, item.target.key = t.key) :
    g.inferJoins source (before ++ t :: after) = g.inferJoins source (before ++ after) := by
  rw [inferJoins_of_ne_nil hne, inferJoins_of_ne_nil (by simp), resolve_append, resolve_append]
  cases hbefore : g.resolve (g.pathTree source) source [] before with
  | error e => rfl
  | ok first =>
    have hpresent : Present source first t := by
      refine h.imp id ?_
      rintro ⟨items, hok, hitem⟩
      have hne : before ≠ [] := by
        rintro rfl
        exact absurd (inferJoins_nil.symm.trans hok) (by simp)
      rw [inferJoins_of_ne_nil hne, hbefore] at hok
      rwa [Except.ok.inj hok]
    have harrived : (t == source || ([] ++ first.map Join.target).any (· == t)) = true :=
      (arrived_iff fun _ hmem => absurd hmem List.not_mem_nil).mpr hpresent
    change (g.resolve (g.pathTree source) source ([] ++ first.map Join.target) (t :: after) >>= _) =
      (g.resolve (g.pathTree source) source ([] ++ first.map Join.target) after >>= _)
    rw [resolve_of_arrived harrived]

/-! ## What is joined, and how -/

/-- A scoped join stands on the link from the table before it. -/
theorem Scoped.exists_link (hs : g.Scoped source items) (h : item ∈ items) :
    ∃ p l, Present source items p ∧ g.Precedes source p item.target ∧
      g.links p item.target = [l] ∧ item.on? = some l.equation := by
  obtain ⟨before, after, rfl⟩ := List.append_of_mem h
  obtain ⟨p, l, hp, hprec, hlink, hon⟩ := hs.at rfl
  exact ⟨p, l, hp.append_left, hprec, hlink, hon⟩

/-- **With a table the whole path to it is there.** -/
theorem Scoped.present_of_onPath (hg : g.WellFormed) (hs : g.Scoped source items)
    (ht : Present source items t) (h : g.OnPath source t u) : Present source items u := by
  induction h with
  | refl => exact ht
  | tail _ hprec ih =>
    rcases ih with hsource | ⟨item, hitem, hkey⟩
    · exact absurd hprec (not_precedes_source hg hsource)
    · obtain ⟨p, l, hp, hprec', -⟩ := hs.exists_link hitem
      rwa [hprec.unique (hprec'.congr hkey)]

/-- **The table decides the condition**: two lists join the same table on the same link. -/
theorem Scoped.on?_eq (hs : g.Scoped source items) (hs' : g.Scoped source items')
    (h : item ∈ items) (h' : item' ∈ items') (hkey : item.target.key = item'.target.key) :
    item.on? = item'.on? := by
  obtain ⟨p, l, -, hprec, hlink, hon⟩ := hs.exists_link h
  obtain ⟨p', l', -, hprec', hlink', hon'⟩ := hs'.exists_link h'
  obtain rfl := hprec'.unique (hprec.congr hkey)
  rw [links_congr rfl hkey, hlink'] at hlink
  rw [hon, hon', (List.cons.inj hlink).1]

/-- **What one list of targets joins, another one joins** that has the same tables in it. -/
theorem Brings.entry_mem (hg : g.WellFormed) (h : g.Brings source [] ts items)
    (h' : g.Brings source [] us items') (hsub : ∀ t ∈ ts, ∃ u ∈ us, u.key = t.key)
    (hitem : item ∈ items) : item.entry ∈ items'.map Join.entry := by
  obtain ⟨t, ht, hpath⟩ := h.onPath item hitem
  obtain ⟨u, hu, hkey⟩ := hsub t ht
  have ht' : Present source items' t := by
    have hu' := h'.present u hu
    rwa [List.nil_append, Present, hkey, ← Present] at hu'
  rcases Scoped.present_of_onPath hg h'.inScope ht' hpath with hsource | ⟨item', hitem', hkey'⟩
  · exact absurd hsource.symm (h.inScope.not_source hitem)
  · have hon := h'.inScope.on?_eq h.inScope hitem' hitem hkey'
    exact List.mem_map.mpr ⟨item', hitem', Prod.ext hkey' hon⟩

/-! ## Inference -/

theorem brings_of_ok (hg : g.WellFormed) (h : g.inferJoins source ts = .ok items) :
    g.Brings source [] ts items := by
  have hne : ts ≠ [] := by
    rintro rfl
    exact absurd (inferJoins_nil.symm.trans h) (by simp)
  rcases inferJoins_cases hg hne with ⟨items', hbrings, hok⟩ | ⟨_, _, _, _, _, _, _, herror⟩
  · rwa [Except.ok.inj (h.symm.trans hok)]
  · exact absurd (h.symm.trans herror) (by simp)

/-- Where some targets are joined, targets among the same tables are too. -/
theorem exists_ok_of_subset (hg : g.WellFormed) (hus : us ≠ [])
    (hsub : ∀ u ∈ us, ∃ t ∈ ts, t.key = u.key) (h : g.inferJoins source ts = .ok items) :
    ∃ items', g.inferJoins source us = .ok items' := by
  have hbrings := brings_of_ok hg h
  rcases inferJoins_cases hg hus with ⟨items', -, hok⟩ | ⟨_, u, _, _, hsplit, -, hfails, -⟩
  · exact ⟨items', hok⟩
  · obtain ⟨t, ht, hkey⟩ := hsub u (by simp [hsplit])
    have hjoinable := hbrings.inScope.joinable hg (hbrings.present t ht)
    exact absurd (hjoinable.congr hg hkey) hfails.not_joinable

theorem perm_entry_of_ok (hg : g.WellFormed)
    (hkeys : ∀ k, k ∈ ts.map Table.key ↔ k ∈ us.map Table.key)
    (h : g.inferJoins source ts = .ok items) (h' : g.inferJoins source us = .ok items') :
    (items.map Join.entry).Perm (items'.map Join.entry) := by
  have hnodup : ∀ {ts items}, g.Brings source [] ts items → (items.map Join.entry).Nodup := by
    intro ts items hbrings
    refine List.Nodup.of_map Prod.fst ?_
    rw [List.map_map]
    exact hbrings.inScope.nodup
  have hbrings := brings_of_ok hg h
  have hbrings' := brings_of_ok hg h'
  refine (List.perm_ext_iff_of_nodup (hnodup hbrings) (hnodup hbrings')).mpr fun entry => ?_
  constructor
  · intro hentry
    obtain ⟨item, hitem, rfl⟩ := List.mem_map.mp hentry
    exact hbrings.entry_mem hg hbrings'
      (fun t ht => List.mem_map.mp ((hkeys t.key).mp (List.mem_map_of_mem ht))) hitem
  · intro hentry
    obtain ⟨item, hitem, rfl⟩ := List.mem_map.mp hentry
    exact hbrings'.entry_mem hg hbrings
      (fun t ht => List.mem_map.mp ((hkeys t.key).mpr (List.mem_map_of_mem ht))) hitem

/-- **What is joined does not depend on the order of the targets or on repeated ones.** Targets that
are the same tables, in any order and any number, are all joined or none is, and the same tables are
joined on the same conditions. Targets added at the end only add joins at the end, and leave an
error as it is. A target that is the source, or that an earlier target brought in, can be left out
if another target remains. -/
theorem inferJoins_targets (hg : g.Reachable) (source : Table) {ts : List Table} (hts : ts ≠ [])
    (us : List Table) (hus : us ≠ []) :
    (ts.Perm us ∨ (∀ k, k ∈ ts.map Table.key ↔ k ∈ us.map Table.key) →
      ((∃ items, g.inferJoins source ts = .ok items) ↔
        ∃ items, g.inferJoins source us = .ok items) ∧
      ∀ items items', g.inferJoins source ts = .ok items → g.inferJoins source us = .ok items' →
        (items.map Join.entry).Perm (items'.map Join.entry)) ∧
    (∀ items, g.inferJoins source (ts ++ us) = .ok items →
      ∃ first, g.inferJoins source ts = .ok first ∧ first <+: items) ∧
    (∀ e, g.inferJoins source ts = .error e → g.inferJoins source (ts ++ us) = .error e) ∧
    ∀ before t after, ts = before ++ t :: after → before ++ after ≠ [] →
      (source.key = t.key ∨ ∃ items, g.inferJoins source before = .ok items ∧
        ∃ item ∈ items, item.target.key = t.key) →
      g.inferJoins source ts = g.inferJoins source (before ++ after) := by
  have hwf := hg.wellFormed
  refine ⟨fun hsame => ?_, fun items => exists_prefix_of_append hts,
    fun e => inferJoins_append_error hts, ?_⟩
  · have hkeys : ∀ k, k ∈ ts.map Table.key ↔ k ∈ us.map Table.key :=
      hsame.elim (fun hperm k => (hperm.map Table.key).mem_iff) id
    refine ⟨⟨?_, ?_⟩, fun items items' => perm_entry_of_ok hwf hkeys⟩
    · rintro ⟨items, h⟩
      exact exists_ok_of_subset hwf hus
        (fun u hu => List.mem_map.mp ((hkeys u.key).mpr (List.mem_map_of_mem hu))) h
    · rintro ⟨items, h⟩
      exact exists_ok_of_subset hwf hts
        (fun t ht => List.mem_map.mp ((hkeys t.key).mp (List.mem_map_of_mem ht))) h
  · rintro before t after rfl hne hpresent
    exact inferJoins_of_present hne hpresent

/-- Two targets that share the way over `orders`, in both orders, and one of them a second time. -/
theorem inferJoins_targets_shared_prefix :
    let g := ofForeignKeys [⟨"orders", "user_id", "users", "id"⟩,
      ⟨"items", "order_id", "orders", "id"⟩, ⟨"payments", "order_id", "orders", "id"⟩]
    let users := Table.ofName "users"
    let orders := Table.ofName "orders"
    let items := Table.ofName "items"
    let payments := Table.ofName "payments"
    ∃ first second,
      g.inferJoins users [payments, items, payments] = .ok first ∧
      g.inferJoins users [items, payments] = .ok second ∧
      first.map (·.target.key) = [orders, payments, items].map Table.key ∧
      second.map (·.target.key) = [orders, items, payments].map Table.key ∧
      (first.map Join.entry).Perm (second.map Join.entry) ∧
      g.inferJoins users [payments, items] = .ok first := by
  intro g users orders items payments
  have hkeys : ∀ k, k ∈ [payments, items, payments].map Table.key ↔
      k ∈ [items, payments].map Table.key := by
    intro k
    simp only [List.map_cons, List.map_nil, List.mem_cons, List.not_mem_nil, or_false]
    tauto
  have hleft : (g.inferJoins users [payments, items]).map (fun js => js.map (·.target.key)) =
      .ok ([orders, payments, items].map Table.key) := by decide +kernel
  have hright : (g.inferJoins users [items, payments]).map (fun js => js.map (·.target.key)) =
      .ok ([orders, items, payments].map Table.key) := by decide +kernel
  obtain ⟨first, hfirst, hfirstKeys⟩ := map_eq_ok_iff.mp hleft
  obtain ⟨second, hsecond, hsecondKeys⟩ := map_eq_ok_iff.mp hright
  obtain ⟨item, hitem, hkey⟩ : ∃ item ∈ first, item.target.key = payments.key := by
    refine List.mem_map.mp ?_
    rw [hfirstKeys]
    simp
  have hne : [payments, items, payments] ≠ [] := List.cons_ne_nil _ _
  obtain ⟨hperm, -, -, hdrop⟩ := inferJoins_targets (g := g) (.ofForeignKeys _) users hne
    [items, payments] (List.cons_ne_nil _ _)
  have hall : g.inferJoins users [payments, items, payments] = .ok first := by
    rw [hdrop [payments, items] payments [] rfl (List.cons_ne_nil _ _)
      (.inr ⟨first, hfirst, item, hitem, hkey⟩)]
    exact hfirst
  exact ⟨first, second, hall, hsecond, hfirstKeys, hsecondKeys,
    (hperm (.inr hkeys)).2 first second hall hsecond, hfirst⟩

end JoinGraph
end SqlBuilder
