import SqlBuilder.Proofs.JoinGraph.Scope

/-!
# What join inference returns

Walking back from one target either adds joins that bring the target in or raises the error that
`Fails` names for it (`walk_cases`). Taking the targets in turn, joins stay `Scoped`, and the first
target that cannot be joined decides the error (`resolve_cases`).

* `inferJoins_sound`: what the joins of a successful inference are like.
* `inferJoins_outcome`: when inference succeeds, and the error when it does not.

A table that was joined earlier ends a walk, so the hops before it are not looked at again. That
loses no error: by `Scoped.joinable` those hops have one link each.
-/

namespace SqlBuilder.JoinGraph

variable {g : JoinGraph} {source target t u p near far : Table} {previous : Nat → Option Nat}
  {joined extra targets : List Table} {items added chain : List Join} {l : Link}
  {fuel n : Nat} {e e' : JoinError}

/-- The path back from `t` leads to a table over hops with exactly one link each. -/
def ClearTo (g : JoinGraph) (source t : Table) : Table → Prop :=
  Relation.ReflTransGen (fun u p => g.Precedes source p u ∧ ∃ l, g.links p u = [l]) t

/-- What keeps a target from being joined, and the error that says so. -/
inductive Fails (g : JoinGraph) (source t : Table) : JoinError → Prop
  | unreachable (h : ¬ g.Connected source t) :
      Fails g source t (.unreachable source.exposedName t.exposedName t.exposedName [])
  /-- The hop from `near` to `far` is the first ambiguous one on the way back from `t`. -/
  | ambiguous {near far : Table} (h : g.Connected source t) (hclear : g.ClearTo source t far)
      (hhop : g.Precedes source near far) (hmany : 2 ≤ (g.links near far).length) :
      Fails g source t (.ambiguousLink near.exposedName far.exposedName
        ((g.links near far).map Link.text))

/-- Joins that, put after `items`, bring the targets in along their paths. -/
structure Brings (g : JoinGraph) (source : Table) (items : List Join) (targets : List Table)
    (added : List Join) : Prop where
  inScope : g.Scoped source (items ++ added)
  present : ∀ t ∈ targets, Present source (items ++ added) t
  onPath : ∀ item ∈ added, ∃ t ∈ targets, g.OnPath source t item.target

/-! ## Targets that fail -/

theorem ClearTo.onPath (h : g.ClearTo source t u) : g.OnPath source t u :=
  Relation.ReflTransGen.mono (fun _ _ hstep => hstep.1) t u h

theorem Fails.not_joinable (h : g.Fails source t e) : ¬ g.Joinable source t := by
  rintro ⟨hconn, hunambiguous⟩
  cases h with
  | unreachable h => exact h hconn
  | ambiguous _ hclear hhop hmany =>
    obtain ⟨l, hl⟩ := hunambiguous _ _ hclear.onPath hhop
    rw [hl, List.length_singleton] at hmany
    omega

/-- Beyond an ambiguous hop the path is not clear. -/
theorem ClearTo.eq_of_ambiguous (hhop : g.Precedes source near far)
    (hmany : 2 ≤ (g.links near far).length) (h : g.ClearTo source far u) : far = u := by
  rcases h.cases_head with rfl | ⟨p, ⟨hp, l, hl⟩, -⟩
  · rfl
  · rw [hp.unique hhop] at hl
    rw [hl, List.length_singleton] at hmany
    omega

/-- **A target fails with one error only.** -/
theorem Fails.unique (h : g.Fails source t e) (h' : g.Fails source t e') : e = e' := by
  cases h with
  | unreachable h =>
    cases h' with
    | unreachable => rfl
    | ambiguous hconn => exact absurd hconn h
  | @ambiguous near far hconn hclear hhop hmany =>
    cases h' with
    | unreachable h => exact absurd hconn h
    | @ambiguous near' far' _ hclear' hhop' hmany' =>
      -- there is one path back, so one of the two hops comes first on it
      have hsame : far = far' := by
        rcases Relation.ReflTransGen.total_of_right_unique
          (fun _ _ _ ha hb => Precedes.unique ha.1 hb.1) hclear hclear' with hback | hback
        · exact ClearTo.eq_of_ambiguous hhop hmany hback
        · exact (ClearTo.eq_of_ambiguous hhop' hmany' hback).symm
      subst hsame
      rw [hhop.unique hhop']

/-! ## One step back -/

/-- A table that is farther from the source is another one. -/
theorem key_ne_of_farther (hn : IsLeast {m | g.Hops source m t} n)
    (h : ∃ m, n < m ∧ IsLeast {m | g.Hops source m u} m) : u.key ≠ t.key := by
  intro hkey
  obtain ⟨m, hlt, hm⟩ := h
  rw [hops_congr hkey] at hm
  exact absurd (hn.unique hm) (by omega)

/-- A walk ends at the tables that were there before it began, as none on the way comes again. -/
theorem arrived_iff (hextra : ∀ u ∈ extra, u.key ≠ t.key) :
    (t == source || (extra ++ items.map Join.target).any (· == t)) = true ↔
      Present source items t := by
  have hnone : ¬ ∃ u ∈ extra, u.key = t.key := fun ⟨u, hu, hkey⟩ => hextra u hu hkey
  simp only [Bool.or_eq_true, List.any_append, List.any_eq_true, Table.beq_iff, hnone, false_or,
    List.mem_map, exists_exists_and_eq_and, Present, eq_comm (a := t.key)]

theorem walk_of_arrived (h : (t == source || joined.any (· == t)) = true) :
    g.walk previous source target fuel joined t chain = .ok chain := by
  unfold walk
  rw [if_pos h]
  rfl

theorem walk_of_lost (h : (t == source || joined.any (· == t)) = false)
    (hp : g.parent? previous t = none) :
    g.walk previous source target fuel joined t chain =
      .error (.unreachable source.exposedName target.exposedName t.exposedName
        (chain.reverse.map fun item => item.target.exposedName)) := by
  unfold walk
  rw [h, hp]
  cases fuel <;> rfl

theorem walk_of_link (h : (t == source || joined.any (· == t)) = false)
    (hp : g.parent? previous t = some p) (hl : g.links p t = [l]) :
    g.walk previous source target (fuel + 1) joined t chain =
      g.walk previous source target fuel (t :: joined) p (⟨t, some l.equation⟩ :: chain) := by
  rw [walk, h, hp]
  simp only [Bool.false_eq_true, if_false, hl]

theorem walk_of_links (h : (t == source || joined.any (· == t)) = false)
    (hp : g.parent? previous t = some p) (hl : ∀ l, g.links p t ≠ [l]) :
    g.walk previous source target (fuel + 1) joined t chain =
      .error (.ambiguousLink p.exposedName t.exposedName ((g.links p t).map Link.text)) := by
  unfold walk
  rw [h, hp]
  simp only [Bool.false_eq_true, if_false]
  rfl

/-! ## A whole walk -/

theorem brings_nil (hs : g.Scoped source items) (h : ∀ t ∈ targets, Present source items t) :
    g.Brings source items targets [] := by
  refine ⟨?_, ?_, fun _ hmem => absurd hmem List.not_mem_nil⟩ <;> rwa [List.append_nil]

/-- A table follows the one before it, which was brought in. -/
theorem Brings.snoc (hg : g.WellFormed) (h : g.Brings source items [p] added)
    (hnew : ¬ Present source items t) (hprec : g.Precedes source p t) (hl : g.links p t = [l]) :
    g.Brings source items [t] (added ++ [⟨t, some l.equation⟩]) := by
  have hp := h.present p (List.mem_singleton_self _)
  have hpath : ∀ item ∈ added, g.OnPath source p item.target := by
    intro item hitem
    obtain ⟨q, hq, hpath⟩ := h.onPath item hitem
    rwa [List.mem_singleton.mp hq] at hpath
  have hnew' : ¬ Present source (items ++ added) t := by
    rw [present_append, not_or]
    refine ⟨hnew, ?_⟩
    rintro ⟨item, hitem, hkey⟩
    -- what was added is no farther than `p`, and `t` is
    obtain ⟨n, hn, hsucc, -⟩ := hprec.distance hg
    obtain ⟨m, hmn, hm⟩ := (hpath item hitem).distance_le hg hn
    rw [hops_congr hkey] at hm
    exact absurd (hm.unique hsucc) (by omega)
  refine ⟨?_, ?_, ?_⟩
  · rw [← List.append_assoc]
    exact h.inScope.snoc hp hnew' hprec hl
  · intro u hu
    rw [List.mem_singleton.mp hu, ← List.append_assoc]
    exact present_snoc.mpr (.inr rfl)
  · intro item hitem
    refine ⟨t, List.mem_singleton_self _, ?_⟩
    rcases List.mem_append.mp hitem with hold | hlast
    · exact .head hprec (hpath item hold)
    · rw [List.mem_singleton.mp hlast]
      exact .refl

/-- A hop with one link hands the failure of the table before on. -/
theorem Fails.of_precedes (hg : g.WellFormed) (h : g.Fails source p e)
    (hprec : g.Precedes source p t) (hl : g.links p t = [l]) : g.Fails source t e := by
  obtain ⟨hp, ht⟩ := hprec.connected hg
  cases h with
  | unreachable h => exact absurd hp h
  | ambiguous _ hclear hhop hmany => exact .ambiguous ht (.head ⟨hprec, l, hl⟩ hclear) hhop hmany

/-- **A walk from a connected table** brings it in or fails. A step back is one hop nearer, so the
distance is fuel enough, and the tables that were passed on the way (`extra`) are farther. -/
theorem walk_connected (hg : g.WellFormed) (hs : g.Scoped source items) (target : Table)
    (fuel : Nat) :
    ∀ {n : Nat} {t : Table} (extra : List Table) (chain : List Join),
      IsLeast {m | g.Hops source m t} n → n ≤ fuel →
      (∀ u ∈ extra, ∃ m, n < m ∧ IsLeast {m | g.Hops source m u} m) →
      (∃ added, g.Brings source items [t] added ∧
        g.walk (g.pathTree source) source target fuel (extra ++ items.map Join.target) t chain =
          .ok (added ++ chain)) ∨
      ∃ e, g.Fails source t e ∧
        g.walk (g.pathTree source) source target fuel (extra ++ items.map Join.target) t chain =
          .error e := by
  induction fuel with
  | zero =>
    intro n t extra chain hn hle hextra
    obtain rfl := Nat.le_zero.mp hle
    have hpresent : Present source items t := by
      cases hn.1 with
      | here h => exact .inl h
    have harrived : _ ↔ Present source items t :=
      arrived_iff fun u hu => key_ne_of_farther hn (hextra u hu)
    exact .inl ⟨[], brings_nil hs (by simpa using hpresent),
      walk_of_arrived (harrived.mpr hpresent)⟩
  | succ fuel ih =>
    intro n t extra chain hn hle hextra
    have harrived : _ ↔ Present source items t :=
      arrived_iff fun u hu => key_ne_of_farther hn (hextra u hu)
    by_cases hpresent : Present source items t
    · exact .inl ⟨[], brings_nil hs (by simpa using hpresent),
        walk_of_arrived (harrived.mpr hpresent)⟩
    have hnot := Bool.eq_false_iff.mpr (mt harrived.mp hpresent)
    obtain ⟨p, hprec⟩ := exists_precedes hg ⟨n, hn.1⟩ (fun h => hpresent (.inl h))
    obtain ⟨k, hk, hsucc, hlinks⟩ := hprec.distance hg
    obtain rfl := hn.unique hsucc
    by_cases hsingle : ∃ l, g.links p t = [l]
    · obtain ⟨l, hl⟩ := hsingle
      have hextra' : ∀ u ∈ t :: extra, ∃ m, k < m ∧ IsLeast {m | g.Hops source m u} m := by
        intro u hu
        rcases List.mem_cons.mp hu with rfl | hu
        · exact ⟨k + 1, Nat.lt_succ_self k, hn⟩
        · obtain ⟨m, hlt, hm⟩ := hextra u hu
          exact ⟨m, by omega, hm⟩
      rw [walk_of_link hnot hprec hl]
      rcases ih (t :: extra) (⟨t, some l.equation⟩ :: chain) hk (by omega) hextra' with
        ⟨added, hadded, hok⟩ | ⟨e, hfails, herror⟩
      · refine .inl ⟨added ++ [⟨t, some l.equation⟩], hadded.snoc hg hpresent hprec hl, ?_⟩
        rw [List.append_assoc]
        exact hok
      · exact .inr ⟨e, hfails.of_precedes hg hprec hl, herror⟩
    · have hnone : ∀ l, g.links p t ≠ [l] := fun l hl => hsingle ⟨l, hl⟩
      refine .inr ⟨_, .ambiguous ⟨k + 1, hn.1⟩ .refl hprec ?_, walk_of_links hnot hprec hnone⟩
      have hzero := mt List.length_eq_zero_iff.mp hlinks
      have hone := mt List.length_eq_one_iff.mp hsingle
      omega

/-- **What a target adds**, or the error that it fails with. -/
theorem walk_cases (hg : g.WellFormed) (hs : g.Scoped source items) (t : Table) :
    (∃ added, g.Brings source items [t] added ∧
      g.walk (g.pathTree source) source t g.edges.length (items.map Join.target) t [] =
        .ok added) ∨
    ∃ e, g.Fails source t e ∧
      g.walk (g.pathTree source) source t g.edges.length (items.map Join.target) t [] =
        .error e := by
  by_cases hconn : g.Connected source t
  · obtain ⟨n, hn, hle⟩ := exists_distance hg hconn
    have := walk_connected hg hs t g.edges.length [] [] hn hle
      (fun _ hmem => absurd hmem List.not_mem_nil)
    simpa using this
  · have harrived : (t == source || ([] ++ items.map Join.target).any (· == t)) = true ↔
        Present source items t := arrived_iff fun _ hmem => absurd hmem List.not_mem_nil
    have hnot := Bool.eq_false_iff.mpr
      (mt harrived.mp fun hpresent => hconn (hs.joinable hg hpresent).1)
    have hlost : g.parent? (g.pathTree source) t = none := by
      rw [Option.eq_none_iff_forall_ne_some]
      exact fun p hp => hconn (Precedes.connected hg hp).2
    exact .inr ⟨_, .unreachable hconn, walk_of_lost hnot hlost⟩

/-! ## All targets -/

theorem Brings.append (h : g.Brings source items [t] added)
    (hrest : g.Brings source (items ++ added) targets chain) :
    g.Brings source items (t :: targets) (added ++ chain) := by
  refine ⟨?_, ?_, ?_⟩
  · rw [← List.append_assoc]
    exact hrest.inScope
  · intro u hu
    rw [← List.append_assoc]
    rcases List.mem_cons.mp hu with rfl | hu
    · exact (h.present u (List.mem_singleton_self _)).append_left
    · exact hrest.present u hu
  · intro item hitem
    rcases List.mem_append.mp hitem with hold | hnew
    · obtain ⟨u, hu, hpath⟩ := h.onPath item hold
      exact ⟨u, by simp [List.mem_singleton.mp hu], hpath⟩
    · obtain ⟨u, hu, hpath⟩ := hrest.onPath item hnew
      exact ⟨u, List.mem_cons_of_mem _ hu, hpath⟩

theorem resolve_cons_ok
    (h : g.walk previous source t g.edges.length (items.map Join.target) t [] = .ok added) :
    g.resolve previous source (items.map Join.target) (t :: targets) =
      (g.resolve previous source ((items ++ added).map Join.target) targets).map (added ++ ·) := by
  rw [resolve, h, List.map_append]
  change (g.resolve previous source (items.map Join.target ++ added.map Join.target) targets >>=
    fun rest => pure (added ++ rest)) = _
  cases g.resolve previous source (items.map Join.target ++ added.map Join.target) targets <;> rfl

theorem resolve_cons_error
    (h : g.walk previous source t g.edges.length (items.map Join.target) t [] = .error e) :
    g.resolve previous source (items.map Join.target) (t :: targets) = .error e := by
  unfold resolve
  rw [h]
  rfl

/-- **All targets are brought in, or the first that cannot be joined decides the error.** -/
theorem resolve_cases (hg : g.WellFormed) (hs : g.Scoped source items) (targets : List Table) :
    (∃ added, g.Brings source items targets added ∧
      g.resolve (g.pathTree source) source (items.map Join.target) targets = .ok added) ∨
    ∃ before t after e, targets = before ++ t :: after ∧ (∀ u ∈ before, g.Joinable source u) ∧
      g.Fails source t e ∧
      g.resolve (g.pathTree source) source (items.map Join.target) targets = .error e := by
  induction targets generalizing items with
  | nil => exact .inl ⟨[], brings_nil hs (fun _ hmem => absurd hmem List.not_mem_nil), rfl⟩
  | cons t targets ih =>
    rcases walk_cases hg hs t with ⟨added, hadded, hwalk⟩ | ⟨e, hfails, hwalk⟩
    · rw [resolve_cons_ok hwalk]
      have ht : g.Joinable source t :=
        hadded.inScope.joinable hg (hadded.present t (List.mem_singleton_self _))
      rcases ih hadded.inScope with
        ⟨rest, hrest, hok⟩ | ⟨before, u, after, e, rfl, hbefore, hfails, herror⟩
      · exact .inl ⟨added ++ rest, hadded.append hrest, by rw [hok]; rfl⟩
      · exact .inr ⟨t :: before, u, after, e, rfl, List.forall_mem_cons.mpr ⟨ht, hbefore⟩, hfails,
          by rw [herror]; rfl⟩
    · exact .inr ⟨[], t, targets, e, rfl, fun _ hmem => absurd hmem List.not_mem_nil, hfails,
        resolve_cons_error hwalk⟩

/-- The first target that cannot be joined decides the error, whatever comes after it. -/
theorem resolve_of_fails (hg : g.WellFormed) {before after : List Table}
    (hs : g.Scoped source items) (hbefore : ∀ u ∈ before, g.Joinable source u)
    (hfails : g.Fails source t e) :
    g.resolve (g.pathTree source) source (items.map Join.target) (before ++ t :: after) =
      .error e := by
  induction before generalizing items with
  | nil =>
    rcases walk_cases hg hs t with ⟨added, hadded, -⟩ | ⟨e', hfails', hwalk⟩
    · have ht := hadded.inScope.joinable hg (hadded.present t (List.mem_singleton_self _))
      exact absurd ht hfails.not_joinable
    · rw [List.nil_append, resolve_cons_error hwalk, hfails.unique hfails']
  | cons u before ih =>
    obtain ⟨hu, hbefore⟩ := List.forall_mem_cons.mp hbefore
    rcases walk_cases hg hs u with ⟨added, hadded, hwalk⟩ | ⟨e', hfails', -⟩
    · rw [List.cons_append, resolve_cons_ok hwalk, ih hadded.inScope hbefore]
      rfl
    · exact absurd hu hfails'.not_joinable

/-! ## Inference -/

theorem inferJoins_nil : g.inferJoins source [] = .error .noTargets := rfl

theorem inferJoins_of_ne_nil (h : targets ≠ []) :
    g.inferJoins source targets = g.resolve (g.pathTree source) source [] targets := by
  unfold inferJoins
  rw [if_neg (fun hempty => h (List.isEmpty_iff.mp hempty))]

theorem inferJoins_cases (hg : g.WellFormed) (h : targets ≠ []) :
    (∃ items, g.Brings source [] targets items ∧ g.inferJoins source targets = .ok items) ∨
    ∃ before t after e, targets = before ++ t :: after ∧ (∀ u ∈ before, g.Joinable source u) ∧
      g.Fails source t e ∧ g.inferJoins source targets = .error e := by
  rw [inferJoins_of_ne_nil h]
  exact resolve_cases hg .nil targets

/-- **Inferred joins are sound and shortest.** No table is joined twice, and the source is not
joined. All targets are brought in, and only tables on their paths are joined. Each condition
equates columns of an earlier table and the joined one, on the only link between them. Following
the conditions back from a target takes as few hops as the graph allows. -/
theorem inferJoins_sound (hg : g.Reachable) (h : g.inferJoins source targets = .ok items) :
    ((items.map (·.target.key)).Nodup ∧ ∀ item ∈ items, item.target.key ≠ source.key) ∧
    ((∀ t ∈ targets, t.key ≠ source.key → ∃ item ∈ items, item.target.key = t.key) ∧
      ∀ item ∈ items, ∃ t ∈ targets, g.OnPath source t item.target) ∧
    (∀ before item after, items = before ++ item :: after →
      ∃ parent x y, Present source before parent ∧ g.links parent item.target = [⟨x, y⟩] ∧
        item.on? = some (.compare (.column x) .eq (.column y)) ∧
        x.table?.map Table.key = some parent.key ∧
        y.table?.map Table.key = some item.target.key) ∧
    ∀ t ∈ targets, (∃ n, Chain source items n t) ∧
      ∀ n, Chain source items n t → IsLeast {m | g.Hops source m t} n := by
  have hwf := hg.wellFormed
  have hne : targets ≠ [] := by
    rintro rfl
    exact absurd (inferJoins_nil.symm.trans h) (by simp)
  obtain ⟨hs, hpresent, hpath⟩ : g.Brings source [] targets items := by
    rcases inferJoins_cases hwf hne with ⟨items', hbrings, hok⟩ | ⟨_, _, _, _, _, _, _, herror⟩
    · rwa [Except.ok.inj (h.symm.trans hok)]
    · exact absurd (h.symm.trans herror) (by simp)
  rw [List.nil_append] at hs hpresent
  refine ⟨⟨hs.nodup, fun item => hs.not_source⟩, ⟨fun t ht hsource => ?_, hpath⟩, ?_, ?_⟩
  · exact (hpresent t ht).resolve_left (fun e => hsource e.symm)
  · intro before item after hsplit
    obtain ⟨p, l, hp, -, hlink, hon⟩ := hs.at hsplit
    obtain ⟨a, b, ha, hap, hb, hbt⟩ := hwf.owned p item.target l (by simp [hlink])
    refine ⟨p, l.source, l.target, hp, hlink, hon, ?_, ?_⟩
    · rw [ha, Option.map_some, hap]
    · rw [hb, Option.map_some, hbt]
  · exact fun t ht => ⟨hs.exists_chain hwf (hpresent t ht), fun n => hs.distance_of_chain hwf⟩

/-- Two targets that share the way over `orders`. -/
theorem inferJoins_sound_shared_prefix :
    let g := ofForeignKeys [⟨"orders", "user_id", "users", "id"⟩,
      ⟨"items", "order_id", "orders", "id"⟩, ⟨"payments", "order_id", "orders", "id"⟩]
    ∃ items : List Join,
      g.inferJoins (.ofName "users") [.ofName "items", .ofName "payments"] = .ok items ∧
      items.map (·.target.name) = ["orders", "items", "payments"] ∧
      ∃ n, Chain (.ofName "users") items n (.ofName "payments") ∧
        IsLeast {m | g.Hops (.ofName "users") m (.ofName "payments")} n := by
  intro g
  have hok : g.inferJoins (.ofName "users") [.ofName "items", .ofName "payments"] = .ok _ := rfl
  refine ⟨_, hok, rfl, ?_⟩
  obtain ⟨-, -, -, hshort⟩ := inferJoins_sound (.ofForeignKeys _) hok
  obtain ⟨⟨n, hn⟩, hleast⟩ := hshort (.ofName "payments") (by simp)
  exact ⟨n, hn, hleast n hn⟩

/-- **When inference succeeds, and the error when it does not.** -/
theorem inferJoins_outcome (hg : g.Reachable) (source : Table) (targets : List Table) :
    (g.inferJoins source targets = .error .noTargets ↔ targets = []) ∧
    (targets ≠ [] → ((∃ items, g.inferJoins source targets = .ok items) ↔
      ∀ t ∈ targets, g.Joinable source t)) ∧
    ∀ e, g.inferJoins source targets = .error e ↔ targets = [] ∧ e = .noTargets ∨
      ∃ before t after, targets = before ++ t :: after ∧ (∀ u ∈ before, g.Joinable source u) ∧
        g.Fails source t e := by
  have hwf := hg.wellFormed
  have herror : ∀ e, g.inferJoins source targets = .error e ↔ targets = [] ∧ e = .noTargets ∨
      ∃ before t after, targets = before ++ t :: after ∧ (∀ u ∈ before, g.Joinable source u) ∧
        g.Fails source t e := by
    intro e
    constructor
    · intro h
      by_cases hne : targets = []
      · subst hne
        exact .inl ⟨rfl, (Except.error.inj (inferJoins_nil.symm.trans h)).symm⟩
      · rcases inferJoins_cases hwf hne with
          ⟨items, -, hok⟩ | ⟨before, t, after, e', hsplit, hbefore, hfails, herror⟩
        · exact absurd (h.symm.trans hok) (by simp)
        · rw [Except.error.inj (h.symm.trans herror)]
          exact .inr ⟨before, t, after, hsplit, hbefore, hfails⟩
    · rintro (⟨rfl, rfl⟩ | ⟨before, t, after, rfl, hbefore, hfails⟩)
      · exact inferJoins_nil
      · rw [inferJoins_of_ne_nil (by simp)]
        exact resolve_of_fails hwf .nil hbefore hfails
  refine ⟨?_, fun hne => ⟨?_, fun hall => ?_⟩, herror⟩
  · rw [herror]
    constructor
    · rintro (⟨hnil, -⟩ | ⟨_, _, _, _, _, hfails⟩)
      · exact hnil
      · cases hfails
    · exact fun hnil => .inl ⟨hnil, rfl⟩
  · rintro ⟨items, hok⟩
    rcases inferJoins_cases hwf hne with ⟨items', hbrings, -⟩ | ⟨_, _, _, _, _, _, _, herror⟩
    · exact fun t ht => hbrings.inScope.joinable hwf (hbrings.present t ht)
    · exact absurd (hok.symm.trans herror) (by simp)
  · rcases inferJoins_cases hwf hne with ⟨items, -, hok⟩ | ⟨_, t, _, _, rfl, -, hfails, -⟩
    · exact ⟨items, hok⟩
    · exact absurd (hall t (by simp)) hfails.not_joinable

/-- Two keys between the same tables are ambiguous, whatever other targets there are. -/
theorem inferJoins_outcome_two_keys :
    let g := ofForeignKeys [⟨"orders", "user_id", "users", "id"⟩,
      ⟨"orders", "seller_id", "users", "id"⟩]
    g.inferJoins (.ofName "users") [.ofName "orders"] = .error (.ambiguousLink "users" "orders"
        ["users.id = orders.user_id", "users.id = orders.seller_id"]) ∧
      g.Fails (.ofName "users") (.ofName "orders") (.ambiguousLink "users" "orders"
        ["users.id = orders.user_id", "users.id = orders.seller_id"]) := by
  intro g
  have herror : g.inferJoins (.ofName "users") [.ofName "orders"] = .error (.ambiguousLink "users"
      "orders" ["users.id = orders.user_id", "users.id = orders.seller_id"]) := rfl
  refine ⟨herror, ?_⟩
  obtain ⟨-, -, hfails⟩ :=
    inferJoins_outcome (.ofForeignKeys _) (.ofName "users") [.ofName "orders"]
  rcases (hfails _).mp herror with ⟨hnil, -⟩ | ⟨before, t, after, hsplit, -, h⟩
  · exact absurd hnil (by simp)
  · rcases before with _ | ⟨_, _ | _⟩
    · obtain ⟨rfl, -⟩ := List.cons_eq_cons.mp hsplit
      exact h
    all_goals exact absurd (congrArg List.length hsplit) (by simp)

end SqlBuilder.JoinGraph
