import SqlBuilder.Proofs.JoinGraph.Targets
import SqlBuilder.Proofs.Query.Plan

/-!
# Joins added at once

A list of joins goes into a query in one step, each with the condition it has from the start. By
hand a join comes first, and its condition edits it in place (`Join.byHand`). `foldlM_joinOne` and
`steps_byHand` bring both to the same clauses: those of the query and then one for each item that
is there.

Inferred joins are in scope when they are added (`Scoped.inScope`): the graph puts a table behind
the ones that its condition names (`Scoped.at`), and the clauses keep that order.

`step_joins_agrees` states both, for lists of any length with absent items in any place.
-/

namespace SqlBuilder

/-- The steps that add the item by hand: a join, and its condition if the item has one. -/
def Join.byHand (item : Join) : List Step :=
  .join .inner item.target :: (item.on?.map Step.on).toList

namespace Clause

/-- The table whose rows the clause brings in. -/
def source? : Clause → Option Table
  | fromTable t => some t
  | join _ t _ => some t
  | _ => none

/-- The condition of a join, if there is one. -/
def on? : Clause → Option Condition
  | join _ _ on? => on?
  | _ => none

/-- Every column of the clause's condition belongs to a table that the clauses before it or the
clause itself bring in. -/
def InScope (before : List Clause) (clause : Clause) : Prop :=
  ∀ c ∈ clause.on?, ∀ x ∈ c.columns, ∃ t, x.table? = some t ∧
    ∃ u ∈ (before ++ [clause]).filterMap source?, u.key = t.key

end Clause

namespace Query

variable {q q' : Query} {items : List Join}

/-- One item of a list of joins: skipped if it is absent, joined by hand if it has a condition, and
else a join that goes without one. -/
def joinOne (q : Query) : Option Join → Except BuildError Query
  | none => return q
  | some ⟨target, some condition⟩ => q.steps (Join.byHand ⟨target, some condition⟩)
  | some ⟨target, none⟩ => return ⟨q.stage, q.clauses ++ [.join .inner target none]⟩

/-! ## At once -/

theorem step_joins (h : q.stage = .fromTable) (items : List (Option Join)) :
    q.step (.joins items) = .ok ⟨.fromTable, q.clauses ++ (Step.joins items).clauses⟩ :=
  step_eq_ok_iff.mpr ⟨Stage.next?_joins.mpr ⟨h, rfl⟩, nofun, rfl⟩

theorem clauses_joins_append (items items' : List (Option Join)) :
    (Step.joins (items ++ items')).clauses =
      (Step.joins items).clauses ++ (Step.joins items').clauses := by
  simp only [Step.clauses, List.filterMap_append, List.map_append]

/-- **A list in two parts** is added by one step for each part. -/
theorem step_joins_append (h : q.stage = .fromTable) (items items' : List (Option Join)) :
    q.step (.joins (items ++ items')) = q.steps [.joins items, .joins items'] := by
  let p : Query := ⟨.fromTable, q.clauses ++ (Step.joins items).clauses⟩
  have hsecond : p.step (.joins items') =
      .ok ⟨.fromTable, p.clauses ++ (Step.joins items').clauses⟩ := step_joins rfl items'
  rw [step_joins h, clauses_joins_append, ← List.append_assoc, eq_comm]
  exact steps_cons_eq_ok_iff.mpr
    ⟨p, step_joins h items, steps_cons_eq_ok_iff.mpr ⟨_, hsecond, rfl⟩⟩

/-! ## One by one -/

/-- A condition completes the join before it to the clause that an item makes. -/
theorem steps_join_on (h : q.stage = .fromTable) (t : Table) (c : Condition) :
    q.steps (Join.byHand ⟨t, some c⟩) =
      .ok ⟨.fromTable, q.clauses ++ [.join .inner t (some c)]⟩ := by
  let p : Query := ⟨.join, q.clauses ++ [.join .inner t none]⟩
  have hjoin : q.step (.join .inner t) = .ok p := step_eq_ok_iff.mpr ⟨by rw [h]; rfl, nofun, rfl⟩
  have hon : p.step (.on c) = .ok ⟨.fromTable, q.clauses ++ [.join .inner t (some c)]⟩ :=
    step_eq_ok_iff.mpr ⟨rfl, nofun, Clause.attach_snoc_join.symm⟩
  exact steps_cons_eq_ok_iff.mpr ⟨p, hjoin, steps_cons_eq_ok_iff.mpr ⟨_, hon, rfl⟩⟩

theorem joinOne_eq (h : q.stage = .fromTable) (item? : Option Join) :
    q.joinOne item? = .ok ⟨.fromTable, q.clauses ++ (Step.joins [item?]).clauses⟩ := by
  match item? with
  | none =>
    rw [show (Step.joins [none]).clauses = [] from rfl, List.append_nil, ← h]
    rfl
  | some ⟨t, some c⟩ => exact steps_join_on h t c
  | some ⟨t, none⟩ =>
    unfold joinOne
    rw [h]
    rfl

/-- **Items one by one** give the clauses that they give at once. -/
theorem foldlM_joinOne (h : q.stage = .fromTable) (items : List (Option Join)) :
    items.foldlM joinOne q = .ok ⟨.fromTable, q.clauses ++ (Step.joins items).clauses⟩ := by
  induction items generalizing q with
  | nil =>
    rw [show (Step.joins []).clauses = [] from rfl, List.append_nil, ← h]
    rfl
  | cons item? items ih =>
    rw [List.foldlM_cons, joinOne_eq h]
    refine (ih rfl).trans ?_
    rw [List.append_assoc, ← clauses_joins_append]
    rfl

/-- **Joins with conditions, by hand**, give the same clauses too. -/
theorem steps_byHand (h : q.stage = .fromTable) (hitems : ∀ item ∈ items, item.on?.isSome) :
    q.steps (items.flatMap Join.byHand) =
      .ok ⟨.fromTable, q.clauses ++ items.map Join.clause⟩ := by
  induction items generalizing q with
  | nil =>
    rw [List.map_nil, List.append_nil, ← h]
    rfl
  | cons item items ih =>
    obtain ⟨hitem, hrest⟩ := List.forall_mem_cons.mp hitems
    obtain ⟨t, on?⟩ := item
    obtain ⟨c, rfl⟩ := Option.isSome_iff_exists.mp hitem
    rw [List.flatMap_cons]
    refine steps_append_eq_ok_iff.mpr ⟨_, steps_join_on h t c, ?_⟩
    rw [ih rfl hrest, List.append_assoc]
    rfl

end Query

/-! ## Scope -/

/-- The tables that are there are brought in by the clauses. -/
theorem JoinGraph.Present.exists_source {source s p : Table} {items : List Join}
    {clauses : List Clause} (hs : .fromTable s ∈ clauses) (hkey : s.key = source.key)
    (h : Present source items p) :
    ∃ u ∈ (clauses ++ items.map Join.clause).filterMap Clause.source?, u.key = p.key := by
  rcases h with hsource | ⟨item, hitem, htarget⟩
  · exact ⟨s, List.mem_filterMap.mpr ⟨_, List.mem_append_left _ hs, rfl⟩, hkey.trans hsource⟩
  · have hclause := List.mem_append_right clauses (List.mem_map_of_mem (f := Join.clause) hitem)
    exact ⟨item.target, List.mem_filterMap.mpr ⟨_, hclause, rfl⟩, htarget⟩

/-- **Inferred joins are in scope**, behind the clause for their source. -/
theorem JoinGraph.Scoped.inScope {g : JoinGraph} {source s : Table} {items : List Join}
    {clauses before after : List Clause} {clause : Clause} (hg : g.WellFormed)
    (hscoped : g.Scoped source items) (hs : .fromTable s ∈ clauses) (hkey : s.key = source.key)
    (h : items.map Join.clause = before ++ clause :: after) :
    clause.InScope (clauses ++ before) := by
  obtain ⟨earlier, rest, hitems, rfl, hrest⟩ := List.map_eq_append_iff.mp h
  obtain ⟨item, later, rfl, rfl, -⟩ := List.map_eq_cons_iff.mp hrest
  obtain ⟨p, l, hp, -, hlink, hon⟩ := hscoped.at hitems
  obtain ⟨a, b, ha, hap, hb, hbt⟩ := hg.owned p item.target l (by simp [hlink])
  intro c hc x hx
  obtain rfl : c = l.equation := Option.some.inj (hc.symm.trans hon)
  rcases List.mem_pair.mp hx with rfl | rfl
  · obtain ⟨u, hu, hup⟩ := hp.exists_source hs hkey
    refine ⟨a, ha, u, ?_, hup.trans hap.symm⟩
    rw [List.filterMap_append]
    exact List.mem_append_left _ hu
  · exact ⟨b, hb, item.target, by simp [Clause.source?, Join.clause], hbt.symm⟩

namespace Query

/-- **Joins added at once are joins added one by one.**

At the stage after the source, a list of joins always gives a query at that stage, and it is the
query that the items give in turn: absent ones are skipped, those with a condition are joined by
hand, the others make a join without one. Two lists in turn add what both add at once. Inferred
joins all have a condition, so they can be chained by hand. If the query is from the source that
they were inferred for, every column in a condition belongs to that source or to a table joined
before it or there. -/
theorem step_joins_agrees {q : Query} (h : q.stage = .fromTable) :
    (∀ items, ∃ q', q.step (.joins items) = .ok q' ∧ q'.stage = .fromTable ∧
      items.foldlM joinOne q = .ok q') ∧
    (∀ items items', q.step (.joins (items ++ items')) = q.steps [.joins items, .joins items']) ∧
    ∀ g : JoinGraph, g.Reachable → ∀ source targets items,
      g.inferJoins source targets = .ok items → ∃ q', q.step (.joins (items.map some)) = .ok q' ∧
        q.steps (items.flatMap Join.byHand) = .ok q' ∧
        (∀ item ∈ items, ∃ c, item.byHand = [.join .inner item.target, .on c]) ∧
        ∀ s, .fromTable s ∈ q.clauses → s.key = source.key →
          ∀ before clause after, q'.clauses = q.clauses ++ before ++ clause :: after →
            clause.InScope (q.clauses ++ before) := by
  refine ⟨fun items => ⟨_, step_joins h items, rfl, foldlM_joinOne h items⟩,
    step_joins_append h, fun g hg source targets items hok => ?_⟩
  have hwf := hg.wellFormed
  have hscoped := (JoinGraph.brings_of_ok hwf hok).inScope
  have hon : ∀ item ∈ items, ∃ c, item.on? = some c := by
    intro item hitem
    obtain ⟨p, l, -, -, -, hon⟩ := hscoped.exists_link hitem
    exact ⟨l.equation, hon⟩
  have hclauses : (Step.joins (items.map some)).clauses = items.map Join.clause := by
    simp [Step.clauses]
  refine ⟨_, step_joins h _, ?_, fun item hitem => ?_, ?_⟩
  · rw [hclauses]
    exact steps_byHand h fun item hitem => Option.isSome_iff_exists.mpr (hon item hitem)
  · obtain ⟨c, hc⟩ := hon item hitem
    exact ⟨c, by rw [Join.byHand, hc]; rfl⟩
  · intro s hs hkey before clause after hsplit
    rw [hclauses, List.append_assoc] at hsplit
    exact hscoped.inScope hwf hs hkey (List.append_cancel_left hsplit)

/-- A list with an absent item and an item without a condition, and the joins over two hops that a
graph infers for the query's source. -/
theorem step_joins_agrees_two_hops :
    let users : Table := .ofName "users"
    let orders : Table := .ofName "orders"
    let lines : Table := .ofName "lines"
    let g := JoinGraph.ofForeignKeys [⟨"orders", "user_id", "users", "id"⟩,
      ⟨"lines", "order_id", "orders", "id"⟩]
    let q : Query := ⟨.fromTable, [.select false [], .fromTable users]⟩
    (∃ q', q.step (.joins [none, some ⟨orders, none⟩, none]) = .ok q' ∧
      [none, some ⟨orders, none⟩, none].foldlM joinOne q = .ok q' ∧
      q'.clauses = [.select false [], .fromTable users, .join .inner orders none]) ∧
    ∃ items q', g.inferJoins users [lines] = .ok items ∧
      items.map (·.target.key) = [orders, lines].map Table.key ∧
      q.step (.joins (items.map some)) = .ok q' ∧ q.steps (items.flatMap Join.byHand) = .ok q' ∧
      ∀ before clause after, q'.clauses = q.clauses ++ before ++ clause :: after →
        clause.InScope (q.clauses ++ before) := by
  intro users orders lines g q
  have hinferred : (g.inferJoins users [lines]).map (fun items => items.map (·.target.key)) =
      .ok ([orders, lines].map Table.key) := by decide +kernel
  obtain ⟨items, hitems, hkeys⟩ := map_eq_ok_iff.mp hinferred
  obtain ⟨hone, -, hall⟩ := step_joins_agrees (q := q) rfl
  obtain ⟨q', hstep, -, hfold⟩ := hone [none, some ⟨orders, none⟩, none]
  obtain ⟨r, hr, hchain, -, hscope⟩ := hall g (.ofForeignKeys _) users [lines] items hitems
  refine ⟨⟨q', hstep, hfold, ?_⟩, items, r, hitems, hkeys, hr, hchain,
    hscope users (by simp [q]) rfl⟩
  exact (step_eq_ok_iff.mp hstep).2.2

end Query
end SqlBuilder
