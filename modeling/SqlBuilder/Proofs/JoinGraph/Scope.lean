import Mathlib.Data.List.Nodup
import SqlBuilder.Proofs.JoinGraph.Paths

/-!
# Joins in scope

`Scoped g source items` says how a list of joins may grow: by a table that is not there yet, on
the one link from the table before it on its path, which is there already. Everything else that
holds of inferred joins follows from it.

* `Scoped.nodup`, `Scoped.not_source`: no table is joined twice, and the source is not joined.
* `Scoped.at`: what each condition is made of, and that it only names tables that are there.
* `Scoped.exists_chain`, `Scoped.distance_of_chain`: following the conditions back leads from every
  joined table to the source, in as many hops as the graph needs.
* `Scoped.joinable`: every joined table could be joined on its own.
-/

namespace SqlBuilder

/-- The table whose column stands on the left of the condition. -/
def Join.parent? (item : Join) : Option Table :=
  match item.on? with
  | some (.compare (.column x) .eq (.column _)) => x.table?
  | _ => none

namespace JoinGraph

variable {g : JoinGraph} {source near far p t u : Table} {l : Link} {item : Join}
  {items before after : List Join} {n : Nat}

/-- A table that is the source or has been joined. -/
def Present (source : Table) (items : List Join) (t : Table) : Prop :=
  source.key = t.key ∨ ∃ item ∈ items, item.target.key = t.key

/-- Joins that each bring one new table to the tables that are there. -/
inductive Scoped (g : JoinGraph) (source : Table) : List Join → Prop
  | nil : Scoped g source []
  | snoc {items : List Join} {p t : Table} {l : Link} (hs : Scoped g source items)
      (hp : Present source items p) (hnew : ¬ Present source items t)
      (hprec : g.Precedes source p t) (hlink : g.links p t = [l]) :
      Scoped g source (items ++ [⟨t, some l.equation⟩])

/-- Following the conditions back from a table takes so many hops to the source. -/
inductive Chain (source : Table) (items : List Join) : Nat → Table → Prop
  | source {t : Table} (h : source.key = t.key) : Chain source items 0 t
  | join {n : Nat} {p t : Table} {item : Join} (hitem : item ∈ items)
      (htarget : item.target.key = t.key) (hparent : item.parent? = some p)
      (hp : Chain source items n p) : Chain source items (n + 1) t

/-- Every hop on the path from the source to a table has exactly one link. -/
def Unambiguous (g : JoinGraph) (source t : Table) : Prop :=
  ∀ near far, g.OnPath source t far → g.Precedes source near far → ∃ l, g.links near far = [l]

/-- A table that can be joined: the source, or connected to it along a path without ambiguity. -/
def Joinable (g : JoinGraph) (source t : Table) : Prop :=
  g.Connected source t ∧ g.Unambiguous source t

/-! ## Tables that are there -/

theorem present_nil : Present source [] t ↔ source.key = t.key := by
  simp [Present]

theorem present_append : Present source (before ++ after) t ↔
    Present source before t ∨ ∃ item ∈ after, item.target.key = t.key := by
  simp only [Present, List.mem_append, or_and_right, exists_or, or_assoc]

theorem Present.append_left (h : Present source before t) : Present source (before ++ after) t :=
  present_append.mpr (.inl h)

theorem present_snoc : Present source (items ++ [item]) t ↔
    Present source items t ∨ item.target.key = t.key := by
  rw [present_append]
  simp only [List.mem_singleton, exists_eq_left]

/-! ## Tables that can be joined -/

theorem Precedes.congr (h : g.Precedes source p t) (hkey : t.key = u.key) :
    g.Precedes source p u := by
  unfold Precedes parent?
  rw [← index?_congr hkey]
  exact h

theorem joinable_of_source (hg : g.WellFormed) (h : source.key = t.key) :
    g.Joinable source t := by
  refine ⟨⟨0, .here h⟩, fun near far hpath hprec => ?_⟩
  -- nothing comes before the source, so it is the only table on its path
  rcases hpath.cases_head with rfl | ⟨q, hq, -⟩
  · exact absurd hprec (not_precedes_source hg h)
  · exact absurd hq (not_precedes_source hg h)

/-- **A table can be joined exactly when the one before it can**, on a single link. -/
theorem Precedes.joinable_iff (hg : g.WellFormed) (h : g.Precedes source p t) :
    g.Joinable source t ↔ g.Joinable source p ∧ ∃ l, g.links p t = [l] := by
  obtain ⟨hp, ht⟩ := h.connected hg
  constructor
  · rintro ⟨-, hclear⟩
    exact ⟨⟨hp, fun near far hpath => hclear near far (.head h hpath)⟩, hclear p t .refl h⟩
  · rintro ⟨⟨-, hclear⟩, hlink⟩
    refine ⟨ht, fun near far hpath hprec => ?_⟩
    rcases hpath.cases_head with rfl | ⟨q, hq, hrest⟩
    · rwa [hprec.unique h]
    · rw [hq.unique h] at hrest
      exact hclear near far hrest hprec

theorem Joinable.congr (hg : g.WellFormed) (h : g.Joinable source t) (hkey : t.key = u.key) :
    g.Joinable source u := by
  by_cases hsource : source.key = t.key
  · exact joinable_of_source hg (hsource.trans hkey)
  · obtain ⟨p, hp⟩ := exists_precedes hg h.1 hsource
    obtain ⟨hbefore, l, hl⟩ := (hp.joinable_iff hg).mp h
    refine ((hp.congr hkey).joinable_iff hg).mpr ⟨hbefore, l, ?_⟩
    rw [← hl]
    exact links_congr rfl hkey.symm

/-! ## What scoped joins are like -/

theorem Scoped.not_source (hs : g.Scoped source items) (h : item ∈ items) :
    item.target.key ≠ source.key := by
  induction hs with
  | nil => exact absurd h List.not_mem_nil
  | snoc _ _ hnew _ _ ih =>
    rcases List.mem_append.mp h with hold | hlast
    · exact ih hold
    · obtain rfl := List.mem_singleton.mp hlast
      exact fun e => hnew (.inl e.symm)

/-- **No table is joined twice.** -/
theorem Scoped.nodup (hs : g.Scoped source items) : (items.map (·.target.key)).Nodup := by
  induction hs with
  | nil => exact List.nodup_nil
  | snoc _ _ hnew _ _ ih =>
    rw [List.map_append, List.map_cons, List.map_nil, ← List.concat_eq_append,
      List.nodup_concat]
    refine ⟨fun hmem => ?_, ih⟩
    obtain ⟨item, hitem, hkey⟩ := List.mem_map.mp hmem
    exact hnew (.inr ⟨item, hitem, hkey⟩)

/-- **Each join is on the one link from a table that is there.** -/
theorem Scoped.at (hs : g.Scoped source items) (h : items = before ++ item :: after) :
    ∃ p l, Present source before p ∧ g.Precedes source p item.target ∧
      g.links p item.target = [l] ∧ item.on? = some l.equation := by
  induction hs generalizing after with
  | nil => exact absurd h (by simp)
  | @snoc items p t l _ hp _ hprec hlink ih =>
    rcases List.eq_nil_or_concat after with rfl | ⟨rest, last, rfl⟩
    · obtain ⟨rfl, rfl⟩ := List.append_inj' h rfl |>.imp id List.singleton_inj.mp
      exact ⟨p, l, hp, hprec, hlink, rfl⟩
    · rw [List.concat_eq_append, ← List.cons_append, ← List.append_assoc] at h
      exact ih (List.append_inj' h rfl).1

/-- The table that a condition leads back to is the one before on the path. -/
theorem Scoped.parent? (hg : g.WellFormed) (hs : g.Scoped source items) (h : item ∈ items) :
    ∃ p q, item.parent? = some q ∧ q.key = p.key ∧ Present source items p ∧
      g.Precedes source p item.target := by
  obtain ⟨before, after, hsplit⟩ := List.append_of_mem h
  obtain ⟨p, l, hp, hprec, hlink, hon⟩ := hs.at hsplit
  have hl : l ∈ g.links p item.target := by simp [hlink]
  obtain ⟨q, -, hq, hkey, -⟩ := hg.owned p item.target l hl
  refine ⟨p, q, ?_, hkey, ?_, hprec⟩
  · unfold Join.parent?
    rw [hon, Link.equation]
    exact hq
  · rw [hsplit]
    exact hp.append_left

/-- **The conditions lead back in as few hops as possible.** -/
theorem Scoped.distance_of_chain (hg : g.WellFormed) (hs : g.Scoped source items)
    (h : Chain source items n t) : IsLeast {m | g.Hops source m t} n := by
  induction h with
  | source h => exact isLeast_zero h
  | join hitem htarget hparent _ ih =>
    obtain ⟨p, q, hq, hkey, -, hprec⟩ := hs.parent? hg hitem
    obtain rfl := Option.some.inj (hparent.symm.trans hq)
    obtain ⟨k, hk, hsucc, -⟩ := hprec.distance hg
    rw [hops_congr hkey] at ih
    rw [ih.unique hk, ← hops_congr htarget]
    exact hsucc

theorem Chain.mono (h : Chain source before n t) (hsub : before ⊆ items) :
    Chain source items n t := by
  induction h with
  | source h => exact .source h
  | join hitem htarget hparent _ ih => exact .join (hsub hitem) htarget hparent ih

theorem Chain.congr (h : Chain source items n t) (hkey : t.key = u.key) :
    Chain source items n u := by
  cases h with
  | source h => exact .source (h.trans hkey)
  | join hitem htarget hparent hp => exact .join hitem (htarget.trans hkey) hparent hp

/-- **The conditions lead back to the source**, from every table that is there. -/
theorem Scoped.exists_chain (hg : g.WellFormed) (hs : g.Scoped source items)
    (h : Present source items t) : ∃ n, Chain source items n t := by
  induction hs generalizing t with
  | nil => exact ⟨0, .source (present_nil.mp h)⟩
  | @snoc items p u l hs hp hnew hprec hlink ih =>
    have hsub : items ⊆ items ++ [⟨u, some l.equation⟩] := List.subset_append_left _ _
    rcases present_snoc.mp h with hold | hkey
    · obtain ⟨n, hn⟩ := ih hold
      exact ⟨n, hn.mono hsub⟩
    · obtain ⟨n, hn⟩ := ih hp
      have hl : l ∈ g.links p u := by simp [hlink]
      obtain ⟨q, -, hq, hqp, -⟩ := hg.owned p u l hl
      exact ⟨n + 1, .join (List.mem_append_right _ (List.mem_singleton_self _)) hkey hq
        ((hn.congr hqp.symm).mono hsub)⟩

/-- **Tables that are there can be joined.** -/
theorem Scoped.joinable (hg : g.WellFormed) (hs : g.Scoped source items)
    (h : Present source items t) : g.Joinable source t := by
  induction hs generalizing t with
  | nil => exact joinable_of_source hg (present_nil.mp h)
  | @snoc items p u l _ hp _ hprec hlink ih =>
    rcases present_snoc.mp h with hold | hkey
    · exact ih hold
    · exact ((hprec.joinable_iff hg).mpr ⟨ih hp, l, hlink⟩).congr hg hkey

end JoinGraph
end SqlBuilder
