import SqlBuilder.Proofs.Query.Grammar

/-!
# What building steps make of a query

Every step that is taken adds its clauses at the end (`Step.clauses`), the condition of a join
apart, which goes into the last clause. `step_eq_ok_iff` says when a step is taken and what it
leaves; the rest is read off it.

* `mayFollow_step`: the kinds of the clauses stay in the order of `StepKind.clauseOrder`.
* `pending`: at a join that waits for its condition, the last clause is that join, without one.
  So a condition goes into the join that was just added (`snoc_on`), and `clauses_steps` can say
  what the clauses are from the steps alone.
* `bare_join`: a join without condition is the one that waits, or was added without.

`steps_accepted` puts these together with the grammar.
-/

namespace SqlBuilder

/-! ## Steps and their clauses -/

namespace Clause

variable {c : Condition} {cs : List Clause} {k : JoinKind} {t : Table}

/-- The kind of step that adds such a clause. -/
def kind : Clause → StepKind
  | select distinct items =>
    match distinct, items with
    | false, [] => .selectAll
    | true, [] => .selectDistinctAll
    | false, _ => .select
    | true, _ => .selectDistinct
  | fromTable _ => .fromTable
  | join .inner _ _ => .join
  | join .left _ _ => .leftJoin
  | join .right _ _ => .rightJoin
  | filter _ => .filter
  | groupBy _ => .groupBy
  | having _ => .having
  | orderBy _ => .orderBy
  | limit _ => .limit
  | offset _ => .offset

/-- The table that the clause joins, if it is a join. -/
def joined? : Clause → Option (JoinKind × Table)
  | join kind target _ => some (kind, target)
  | _ => none

theorem attach_snoc_join :
    attach c (cs ++ [.join k t none]) = cs ++ [.join k t (some c)] := by
  induction cs with
  | nil => rfl
  | cons clause cs ih =>
    rw [List.cons_append, List.cons_append, ← ih, attach]
    -- a clause before the join is not the last one
    intro kind target on? hclause hnil
    exact absurd hnil (by simp)

theorem map_kind_attach : (attach c cs).map kind = cs.map kind := by
  fun_induction attach c cs with
  | case1 => rfl
  | case2 kind t o => cases kind <;> rfl
  | case3 clause cs _ ih => rw [List.map_cons, List.map_cons, ih]

end Clause

namespace Step

variable {s : Step}

/-- The clauses that a step adds of its own. -/
def clauses : Step → List Clause
  | select distinct items => [.select distinct items]
  | selectAll distinct => [.select distinct []]
  | fromTable table => [.fromTable table]
  | join kind target => [.join kind target none]
  | on _ => []
  | joins items => (items.filterMap id).map Join.clause
  | filter condition => [.filter condition]
  | groupBy items => [.groupBy items]
  | having condition => [.having condition]
  | orderBy keys => [.orderBy keys]
  | limit count => [.limit count]
  | offset count => [.offset count]

/-- The clauses of a query after the step. -/
def addTo (before : List Clause) : Step → List Clause
  | on condition => Clause.attach condition before
  | s => before ++ s.clauses

/-- The clauses that steps add, each join with the condition that comes right after it. -/
def clausesOf : List Step → List Clause
  | [] => []
  | .join kind target :: .on condition :: ss => .join kind target (some condition) :: clausesOf ss
  | s :: ss => s.clauses ++ clausesOf ss

/-- The tables that a step joins, in order. -/
def joined : Step → List (JoinKind × Table)
  | join kind target => [(kind, target)]
  | joins items => (items.filterMap id).map fun item => (.inner, item.target)
  | _ => []

theorem kind_eq_on_iff : s.kind = .on ↔ ∃ condition, s = on condition := by
  constructor
  · fun_cases Step.kind s <;> simp
  · rintro ⟨condition, rfl⟩
    rfl

theorem kind_eq_joins_iff : s.kind = .joins ↔ ∃ items, s = joins items := by
  constructor
  · fun_cases Step.kind s <;> simp
  · rintro ⟨items, rfl⟩
    rfl

theorem addTo_of_kind_ne_on (h : s.kind ≠ .on) (before : List Clause) :
    s.addTo before = before ++ s.clauses := by
  cases s with
  | on condition => exact absurd rfl h
  | _ => rfl

/-- The clause of a step is of the step's kind. -/
theorem map_kind_clauses (hne : ∀ distinct, s ≠ .select distinct []) (hon : s.kind ≠ .on)
    (hjoins : s.kind ≠ .joins) : s.clauses.map Clause.kind = [s.kind] := by
  cases s with
  | select distinct items =>
    cases items with
    | nil => exact absurd rfl (hne distinct)
    | cons => cases distinct <;> rfl
  | selectAll distinct => cases distinct <;> rfl
  | join kind => cases kind <;> rfl
  | on => exact absurd rfl hon
  | joins => exact absurd rfl hjoins
  | _ => rfl

theorem filterMap_joined?_clauses (s : Step) :
    s.clauses.filterMap Clause.joined? = s.joined := by
  cases s with
  | joins items => exact List.filterMap_map.trans (congrFun List.filterMap_eq_map _)
  | _ => rfl

/-- The joins among the clauses are those of the steps. -/
theorem filterMap_joined?_clausesOf (ss : List Step) :
    (clausesOf ss).filterMap Clause.joined? = ss.flatMap joined := by
  fun_induction clausesOf ss with
  | case1 => rfl
  | case2 kind t c ss ih => exact congrArg ((kind, t) :: ·) ih
  | case3 s ss _ ih =>
    rw [List.filterMap_append, ih, List.flatMap_cons, filterMap_joined?_clauses]

/-- Where a join without a condition is among the clauses of a step. -/
theorem clauses_eq_append_join {cs later : List Clause} {kind : JoinKind} {t : Table}
    (h : s.clauses = cs ++ .join kind t none :: later) :
    (s = .join kind t ∧ cs = [] ∧ later = []) ∨ kind = .inner ∧ ∃ items items',
      s = .joins (items ++ some ⟨t, none⟩ :: items') ∧ cs = (joins items).clauses := by
  cases s with
  | join kind' t' =>
    left
    obtain ⟨rfl, ⟨rfl, rfl⟩, rfl⟩ : cs = [] ∧ (kind = kind' ∧ t = t') ∧ later = [] := by
      simpa [clauses, List.singleton_eq_append_iff] using h
    exact ⟨rfl, rfl, rfl⟩
  | joins all =>
    right
    obtain ⟨taken, left, hall, rfl, hleft⟩ := List.map_eq_append_iff.mp h
    obtain ⟨⟨target, on?⟩, left, rfl, hitem, -⟩ := List.map_eq_cons_iff.mp hleft
    obtain ⟨rfl, rfl, rfl⟩ := Clause.join.inj hitem
    obtain ⟨items, rest, rfl, rfl, hrest⟩ := List.filterMap_eq_append_iff.mp hall
    obtain ⟨absent, item?, items', rfl, habsent, rfl, -⟩ := List.filterMap_eq_cons_iff.mp hrest
    have hnone : absent.filterMap id = [] := List.filterMap_eq_nil_iff.mpr habsent
    refine ⟨rfl, items ++ absent, items', by rw [List.append_assoc], ?_⟩
    rw [clauses, List.filterMap_append, hnone, List.append_nil]
  | on c => exact absurd h (by simp [clauses])
  | _ => simp [clauses, List.singleton_eq_append_iff] at h

end Step

/-! ## Stages around a join -/

namespace Stage

variable {stage stage' : Stage} {k : StepKind} {kind : JoinKind} {t : Table}

theorem next?_on : stage.next? .on = some stage' ↔ stage = .join ∧ stage' = .fromTable := by
  cases stage <;> simp [next?, eq_comm]

theorem next?_joins :
    stage.next? .joins = some stage' ↔ stage = .fromTable ∧ stage' = .fromTable := by
  cases stage <;> simp [next?, eq_comm]

theorem eq_on_of_next?_join (h : next? join k = some stage) : k = .on := by
  cases k <;> cases h
  rfl

theorem next?_join (h : stage.next? (Step.join kind t).kind = some stage') : stage' = .join := by
  cases kind <;> cases stage <;> cases h <;> rfl

/-- Only a join step leads to the stage that waits for a condition. -/
theorem exists_of_next?_eq_join {s : Step} (h : stage.next? s.kind = some .join) :
    ∃ kind t, s = .join kind t := by
  cases s with
  | join kind t => exact ⟨kind, t, rfl⟩
  | select distinct => cases distinct <;> cases stage <;> cases h
  | selectAll distinct => cases distinct <;> cases stage <;> cases h
  | _ => cases stage <;> cases h

theorem mayFollow_joins {w : List StepKind} (items : List Join) (hw : MayFollow .fromTable w) :
    MayFollow .fromTable ((items.map Join.clause).map Clause.kind ++ w) := by
  induction items with
  | nil => exact hw
  | cons item items ih => exact mayFollow_fromTable_cons.mpr (.inl ⟨.inl rfl, ih⟩)

end Stage

namespace Query

variable {q q' : Query} {s : Step} {ss : List Step} {kind : JoinKind} {t : Table}
  {cs : List Clause} {c : Condition}

/-! ## Taking a step -/

theorem extend_of_ne (h : ∀ distinct, s ≠ .select distinct []) :
    extend cs s = .ok (s.addTo cs) := by
  cases s with
  | select distinct items =>
    cases items with
    | nil => exact absurd rfl (h distinct)
    | cons item items => rfl
  | _ => rfl

theorem allow_eq_ok_iff {k : StepKind} {stage : Stage} :
    q.allow k = .ok stage ↔ q.stage.next? k = some stage := by
  unfold allow
  cases q.stage.next? k with
  | none => exact ⟨nofun, nofun⟩
  | some t =>
    exact ⟨fun h => congrArg some (Except.ok.inj h), fun h => congrArg _ (Option.some.inj h)⟩

/-- **When a step is taken, and what it leaves.** -/
theorem step_eq_ok_iff : q.step s = .ok q' ↔ q.stage.next? s.kind = some q'.stage ∧
    (∀ distinct, s ≠ .select distinct []) ∧ q'.clauses = s.addTo q.clauses := by
  unfold step
  rw [bind_eq_ok_iff]
  simp only [bind_eq_ok_iff, allow_eq_ok_iff]
  constructor
  · rintro ⟨stage, hstage, clauses, hextend, hq⟩
    obtain rfl := Except.ok.inj hq
    have hne : ∀ distinct, s ≠ .select distinct [] := by
      rintro distinct rfl
      exact nomatch hextend
    exact ⟨hstage, hne, Except.ok.inj (hextend.symm.trans (extend_of_ne hne))⟩
  · rintro ⟨hstage, hne, hclauses⟩
    refine ⟨q'.stage, hstage, q'.clauses, ?_, rfl⟩
    rw [extend_of_ne hne, hclauses]

theorem steps_nil_eq_ok_iff : q.steps [] = .ok q' ↔ q = q' := ⟨Except.ok.inj, congrArg _⟩

theorem steps_cons_eq_ok_iff :
    q.steps (s :: ss) = .ok q' ↔ ∃ p, q.step s = .ok p ∧ p.steps ss = .ok q' := bind_eq_ok_iff

theorem steps_append_eq_ok_iff {before after : List Step} :
    q.steps (before ++ after) = .ok q' ↔ ∃ p, q.steps before = .ok p ∧ p.steps after = .ok q' := by
  induction before generalizing q with
  | nil => simp [steps_nil_eq_ok_iff]
  | cons s before ih =>
    rw [List.cons_append, steps_cons_eq_ok_iff]
    simp only [ih, steps_cons_eq_ok_iff]
    constructor
    · rintro ⟨p, hp, r, hr, h⟩
      exact ⟨r, ⟨p, hp, hr⟩, h⟩
    · rintro ⟨r, ⟨p, hp, hr⟩, h⟩
      exact ⟨p, hp, r, hr, h⟩

theorem steps_snoc_eq_ok_iff :
    q.steps (ss ++ [s]) = .ok q' ↔ ∃ p, q.steps ss = .ok p ∧ p.step s = .ok q' := by
  simp only [steps_append_eq_ok_iff, steps_cons_eq_ok_iff, steps_nil_eq_ok_iff, exists_eq_right]

/-- A list of steps is taken exactly when the stages have them all, apart from select lists of
their own without items. -/
theorem exists_steps_iff : (∃ q', q.steps ss = .ok q') ↔
    (q.stage.after? (ss.map Step.kind)).isSome ∧ ∀ distinct, Step.select distinct [] ∉ ss := by
  induction ss generalizing q with
  | nil => simp [steps_nil_eq_ok_iff, Stage.after?]
  | cons s ss ih =>
    rw [List.map_cons, Stage.isSome_after?_cons]
    constructor
    · rintro ⟨q', hq'⟩
      obtain ⟨p, hp, hrest⟩ := steps_cons_eq_ok_iff.mp hq'
      obtain ⟨hstage, hne, -⟩ := step_eq_ok_iff.mp hp
      obtain ⟨hafter, hall⟩ := ih.mp ⟨q', hrest⟩
      refine ⟨⟨p.stage, hstage, hafter⟩, fun distinct hmem => ?_⟩
      exact (List.mem_cons.mp hmem).elim (fun h => hne distinct h.symm) (hall distinct)
    · rintro ⟨⟨stage, hstage, hafter⟩, hall⟩
      let p : Query := ⟨stage, s.addTo q.clauses⟩
      have hp : q.step s = .ok p :=
        step_eq_ok_iff.mpr ⟨hstage, fun d h => hall d (h ▸ List.mem_cons_self), rfl⟩
      obtain ⟨q', hq'⟩ : ∃ q', p.steps ss = .ok q' :=
        ih.mpr ⟨hafter, fun d hmem => hall d (List.mem_cons_of_mem s hmem)⟩
      exact ⟨q', steps_cons_eq_ok_iff.mpr ⟨p, hp, hq'⟩⟩

/-! ## The order of the clauses -/

/-- **A step keeps the clauses in order.** -/
theorem mayFollow_step {w : List StepKind} (h : q.step s = .ok q') (hw : q'.stage.MayFollow w) :
    ∃ added, q'.clauses.map Clause.kind = q.clauses.map Clause.kind ++ added ∧
      q.stage.MayFollow (added ++ w) := by
  obtain ⟨hstage, hne, hclauses⟩ := step_eq_ok_iff.mp h
  by_cases hon : s.kind = .on
  · obtain ⟨c, rfl⟩ := Step.kind_eq_on_iff.mp hon
    obtain ⟨hjoin, hfrom⟩ := Stage.next?_on.mp hstage
    rw [hfrom] at hw
    refine ⟨[], ?_, by rw [hjoin]; exact hw⟩
    rw [hclauses, Step.addTo, Clause.map_kind_attach, List.append_nil]
  rw [Step.addTo_of_kind_ne_on hon] at hclauses
  refine ⟨s.clauses.map Clause.kind, by rw [hclauses, List.map_append], ?_⟩
  by_cases hjoins : s.kind = .joins
  · obtain ⟨items, rfl⟩ := Step.kind_eq_joins_iff.mp hjoins
    obtain ⟨hfrom, hfrom'⟩ := Stage.next?_joins.mp hstage
    rw [hfrom'] at hw
    rw [hfrom]
    exact Stage.mayFollow_joins (items.filterMap id) hw
  · rw [Step.map_kind_clauses hne hon hjoins]
    exact Stage.mayFollow_of_next? hstage hon hjoins hw

/-- Steps keep the clauses in order. -/
theorem mayFollow_steps {w : List StepKind} (h : q.steps ss = .ok q')
    (hw : q'.stage.MayFollow w) :
    ∃ added, q'.clauses.map Clause.kind = q.clauses.map Clause.kind ++ added ∧
      q.stage.MayFollow (added ++ w) := by
  induction ss generalizing q with
  | nil =>
    obtain rfl := steps_nil_eq_ok_iff.mp h
    exact ⟨[], (List.append_nil _).symm, hw⟩
  | cons s ss ih =>
    obtain ⟨p, hp, hrest⟩ := steps_cons_eq_ok_iff.mp h
    obtain ⟨later, hlater, hmay⟩ := ih hrest
    obtain ⟨added, hadded, hmay'⟩ := mayFollow_step hp hmay
    refine ⟨added ++ later, ?_, by rwa [List.append_assoc]⟩
    rw [hlater, hadded, List.append_assoc]

/-- The clauses of a query stand in the order of the grammar. -/
theorem map_kind_mem_clauseOrder (h : start.steps ss = .ok q) :
    q.clauses.map Clause.kind ∈ StepKind.clauseOrder.matches' := by
  obtain ⟨added, hadded, hmay⟩ := mayFollow_steps h (Stage.mayFollow_nil q.stage)
  rw [List.append_nil] at hmay
  rw [hadded]
  exact hmay

/-! ## The join that waits for its condition -/

/-- A stage that waits for a condition has come from the join that the condition is for. -/
theorem pending (h : start.steps ss = .ok q) (hjoin : q.stage = .join) :
    ∃ before kind t cs, ss = before ++ [.join kind t] ∧ q.clauses = cs ++ [.join kind t none] := by
  cases ss using List.reverseRec with
  | nil =>
    obtain rfl := steps_nil_eq_ok_iff.mp h
    cases hjoin
  | append_singleton before s =>
    obtain ⟨p, -, hs⟩ := steps_snoc_eq_ok_iff.mp h
    obtain ⟨hstage, -, hclauses⟩ := step_eq_ok_iff.mp hs
    rw [hjoin] at hstage
    obtain ⟨kind, t, rfl⟩ := Stage.exists_of_next?_eq_join hstage
    exact ⟨before, kind, t, p.clauses, rfl, hclauses⟩

/-- Steps at a stage that waits for a condition begin with that condition. -/
theorem exists_of_steps_join (hq : q.stage = .join) (h : q.steps (s :: ss) = .ok q') :
    ∃ c, s = .on c := by
  obtain ⟨p, hp, -⟩ := steps_cons_eq_ok_iff.mp h
  obtain ⟨hstage, -, -⟩ := step_eq_ok_iff.mp hp
  rw [hq] at hstage
  exact Step.kind_eq_on_iff.mp (Stage.eq_on_of_next?_join hstage)

theorem kind_ne_on (hq : q.stage ≠ .join) (h : q.step s = .ok q') : s.kind ≠ .on := by
  intro hon
  obtain ⟨hstage, -, -⟩ := step_eq_ok_iff.mp h
  rw [hon] at hstage
  exact hq (Stage.next?_on.mp hstage).1

/-! ## The clauses from the steps alone -/

/-- **The clauses of a run are those of its steps**, each join with its condition. -/
theorem clauses_steps (hq : q.stage ≠ .join) (h : q.steps ss = .ok q') :
    q'.clauses = q.clauses ++ Step.clausesOf ss := by
  fun_induction Step.clausesOf ss generalizing q with
  | case1 =>
    obtain rfl := steps_nil_eq_ok_iff.mp h
    rw [List.append_nil]
  | case2 kind t c ss ih =>
    obtain ⟨p, hp, hrest⟩ := steps_cons_eq_ok_iff.mp h
    obtain ⟨r, hr, hrest⟩ := steps_cons_eq_ok_iff.mp hrest
    obtain ⟨-, -, hjoin⟩ := step_eq_ok_iff.mp hp
    obtain ⟨hstage, -, hon⟩ := step_eq_ok_iff.mp hr
    have hfrom : r.stage = .fromTable := (Stage.next?_on.mp hstage).2
    rw [ih (by simp [hfrom]) hrest, hon, hjoin]
    simp only [Step.addTo, Step.clauses, Clause.attach_snoc_join, List.append_assoc,
      List.singleton_append]
  | case3 s ss hne ih =>
    obtain ⟨p, hp, hrest⟩ := steps_cons_eq_ok_iff.mp h
    obtain ⟨hstage, -, hclauses⟩ := step_eq_ok_iff.mp hp
    rw [Step.addTo_of_kind_ne_on (kind_ne_on hq hp)] at hclauses
    by_cases hjoin : p.stage = .join
    · -- nothing but a condition could follow, and a condition does not
      rw [hjoin] at hstage
      obtain ⟨kind, t, rfl⟩ := Stage.exists_of_next?_eq_join hstage
      cases ss with
      | nil =>
        obtain rfl := steps_nil_eq_ok_iff.mp hrest
        rw [hclauses, Step.clausesOf, List.append_nil]
      | cons s' ss =>
        obtain ⟨c, rfl⟩ := exists_of_steps_join hjoin hrest
        exact absurd rfl (hne kind t c ss rfl)
    · rw [ih hjoin hrest, hclauses, List.append_assoc]

/-! ## Joins without a condition -/

/-- **Where a join without a condition comes from**, seen over one step: it was there, and was not
the one that waits, or it is of the step. -/
theorem bare_join_step {before after : List Clause} (h : q.step s = .ok q')
    (hpending : q.stage = .join → ∃ cs kind t, q.clauses = cs ++ [.join kind t none])
    (hclauses : q'.clauses = before ++ .join kind t none :: after) :
    (∃ after', q.clauses = before ++ .join kind t none :: after' ∧
      (q.stage = .join → after' ≠ [])) ∨
    (∃ cs, before = q.clauses ++ cs ∧ s.clauses = cs ++ .join kind t none :: after) := by
  obtain ⟨hstage, -, hq⟩ := step_eq_ok_iff.mp h
  by_cases hon : s.kind = .on
  · -- the condition goes into the last clause, so the join is among those before it
    obtain ⟨c, rfl⟩ := Step.kind_eq_on_iff.mp hon
    obtain ⟨cs, kind', t', hcs⟩ := hpending (Stage.next?_on.mp hstage).1
    rw [hq, hcs, Step.addTo, Clause.attach_snoc_join] at hclauses
    cases after using List.reverseRec with
    | nil => exact absurd hclauses (by simp)
    | append_singleton after last =>
      rw [← List.cons_append, ← List.append_assoc] at hclauses
      obtain ⟨rfl, -⟩ := List.append_inj' hclauses rfl
      rw [List.append_assoc, List.cons_append] at hcs
      exact .inl ⟨_, hcs, fun _ => by simp⟩
  · rw [hq, Step.addTo_of_kind_ne_on hon] at hclauses
    have hwait : q.stage ≠ .join := fun hjoin => hon (Stage.eq_on_of_next?_join (hjoin ▸ hstage))
    obtain ⟨cs, hbefore, hcs⟩ | ⟨cs, hcs, hafter⟩ := List.append_eq_append_iff.mp hclauses
    · exact .inr ⟨cs, hbefore, hcs⟩
    · cases cs with
      | nil => exact .inr ⟨[], by rw [hcs, List.append_nil, List.append_nil], hafter.symm⟩
      | cons clause cs =>
        obtain ⟨rfl, -⟩ := List.cons_eq_cons.mp hafter
        exact .inl ⟨cs, hcs, fun hjoin => absurd hjoin hwait⟩

/-- After the steps that made the clauses `before` comes an item for the table that has no
condition. -/
def ItemWithout (ss : List Step) (before : List Clause) (t : Table) : Prop :=
  ∃ earlier items items' later,
    ss = earlier ++ .joins (items ++ some ⟨t, none⟩ :: items') :: later ∧
      before = Step.clausesOf (earlier ++ [.joins items])

theorem ItemWithout.snoc {before : List Clause} (h : ItemWithout ss before t) (s : Step) :
    ItemWithout (ss ++ [s]) before t := by
  obtain ⟨earlier, items, items', later, rfl, hbefore⟩ := h
  exact ⟨earlier, items, items', later ++ [s], by simp, hbefore⟩

/-- **A join without a condition** is the one that waits, or comes from an item without one. -/
theorem bare_join {before after : List Clause} (h : start.steps ss = .ok q)
    (hclauses : q.clauses = before ++ .join kind t none :: after) :
    (q.stage = .join ∧ after = []) ∨ (kind = .inner ∧ ItemWithout ss before t) := by
  induction ss using List.reverseRecOn generalizing q before after with
  | nil =>
    obtain rfl := steps_nil_eq_ok_iff.mp h
    exact absurd hclauses (by simp [start])
  | append_singleton ss s ih =>
    obtain ⟨p, hp, hs⟩ := steps_snoc_eq_ok_iff.mp h
    have hpending (hjoin : p.stage = .join) :
        ∃ cs kind t, p.clauses = cs ++ [.join kind t none] := by
      obtain ⟨-, kind, t, cs, -, hcs⟩ := pending hp hjoin
      exact ⟨cs, kind, t, hcs⟩
    obtain ⟨after', hwas, hnot⟩ | ⟨cs, rfl, hcs⟩ := bare_join_step hs hpending hclauses
    · rcases ih hp hwas with ⟨hjoin, hnil⟩ | ⟨hkind, hitem⟩
      · exact absurd hnil (hnot hjoin)
      · exact .inr ⟨hkind, hitem.snoc s⟩
    · obtain ⟨hstage, -, -⟩ := step_eq_ok_iff.mp hs
      rcases Step.clauses_eq_append_join hcs with ⟨rfl, -, rfl⟩ | ⟨hkind, items, items', rfl, rfl⟩
      · exact .inl ⟨Stage.next?_join hstage, rfl⟩
      · refine .inr ⟨hkind, ss, items, items', [], rfl, ?_⟩
        -- the items before this one are a step that the stage has as well
        let r : Query := ⟨.fromTable, p.clauses ++ (Step.joins items).clauses⟩
        have hstage' : p.stage.next? .joins = some .fromTable :=
          Stage.next?_joins.mpr ⟨(Stage.next?_joins.mp hstage).1, rfl⟩
        have hr : p.step (.joins items) = .ok r := step_eq_ok_iff.mpr ⟨hstage', nofun, rfl⟩
        exact clauses_steps (q := start) nofun (steps_snoc_eq_ok_iff.mpr ⟨p, hp, hr⟩)

/-! ## Conditions go into the last join -/

theorem snoc_join (h : start.steps (ss ++ [.join kind t]) = .ok q) :
    q.stage = .join ∧ ∃ cs, q.clauses = cs ++ [.join kind t none] := by
  obtain ⟨p, -, hjoin⟩ := steps_snoc_eq_ok_iff.mp h
  obtain ⟨hstage, -, hq⟩ := step_eq_ok_iff.mp hjoin
  exact ⟨Stage.next?_join hstage, p.clauses, hq⟩

theorem stage_eq_join_iff (h : start.steps ss = .ok q) :
    q.stage = .join ↔ ∃ before kind t, ss = before ++ [.join kind t] := by
  constructor
  · intro hjoin
    obtain ⟨before, kind, t, -, hss, -⟩ := pending h hjoin
    exact ⟨before, kind, t, hss⟩
  · rintro ⟨before, kind, t, rfl⟩
    exact (snoc_join h).1

theorem snoc_on (h : start.steps (ss ++ [.on c]) = .ok q) :
    ∃ cs kind t, start.steps ss = .ok ⟨.join, cs ++ [.join kind t none]⟩ ∧
      q.clauses = cs ++ [.join kind t (some c)] := by
  obtain ⟨⟨stage, clauses⟩, hp, hon⟩ := steps_snoc_eq_ok_iff.mp h
  obtain ⟨hstage, -, hq⟩ := step_eq_ok_iff.mp hon
  obtain ⟨rfl, -⟩ := Stage.next?_on.mp hstage
  obtain ⟨-, kind, t, cs, -, rfl⟩ := pending hp rfl
  exact ⟨cs, kind, t, hp, hq.trans Clause.attach_snoc_join⟩

/-! ## What a query says about its steps -/

/-- The clauses of a query are those that the steps ask for. -/
structure Records (q : Query) (ss : List Step) : Prop where
  /-- A select list, a source, joins, and then at most one clause of each further kind, in the
  order of the grammar. -/
  ordered : q.clauses.map Clause.kind ∈ StepKind.clauseOrder.matches'
  clauses : q.clauses = Step.clausesOf ss
  /-- One join for each join step and for each item that is there, in the order of the steps. -/
  joined : q.clauses.filterMap Clause.joined? = ss.flatMap Step.joined
  /-- The query waits for a condition right after a join step. -/
  waiting : q.stage = .join ↔ ∃ before kind t, ss = before ++ [.join kind t]
  pending : ∀ {before kind t}, ss = before ++ [.join kind t] →
    ∃ cs, q.clauses = cs ++ [.join kind t none]
  /-- A condition goes into the join that waited for it, and changes nothing else. -/
  attached : ∀ {before c}, ss = before ++ [.on c] → ∃ cs kind t,
    start.steps before = .ok ⟨.join, cs ++ [.join kind t none]⟩ ∧
      q.clauses = cs ++ [.join kind t (some c)]
  bare : ∀ {before after kind t}, q.clauses = before ++ .join kind t none :: after →
    (q.stage = .join ∧ after = []) ∨ (kind = .inner ∧ ItemWithout ss before t)

theorem records (h : start.steps ss = .ok q) : q.Records ss where
  ordered := map_kind_mem_clauseOrder h
  clauses := clauses_steps (q := start) nofun h
  joined := by
    rw [clauses_steps (q := start) nofun h]
    exact Step.filterMap_joined?_clausesOf ss
  waiting := stage_eq_join_iff h
  pending := fun hss => (snoc_join (hss ▸ h)).2
  attached := fun hss => snoc_on (hss ▸ h)
  bare := bare_join h

/-- **The stages accept exactly the grammar, and a query is what its steps ask for.** Steps of the
right kinds give a query, apart from a select list of its own that has no items. -/
theorem steps_accepted (ss : List Step) :
    ((Stage.start.after? (ss.map Step.kind)).isSome ↔
      ∃ w ∈ StepKind.grammar.matches', ss.map Step.kind <+: w) ∧
    ((∃ q, start.steps ss = .ok q) ↔
      (∃ w ∈ StepKind.grammar.matches', ss.map Step.kind <+: w) ∧
        ∀ distinct, Step.select distinct [] ∉ ss) ∧
    ∀ q, start.steps ss = .ok q → q.Records ss :=
  ⟨Stage.isSome_after?_iff, exists_steps_iff.trans (and_congr_left' Stage.isSome_after?_iff),
    fun _ => records⟩

/-- Two joins without a condition: the first is of an item that has none, the second waits. -/
theorem steps_accepted_two_bare_joins :
    let pets : Table := .ofName "pets"
    let toys : Table := .ofName "toys"
    let ss : List Step := [.selectAll true, .fromTable (.ofName "people"),
      .joins [none, some ⟨pets, none⟩], .join .left toys]
    ∃ q, start.steps ss = .ok q ∧ q.Records ss ∧ q.stage = .join ∧
      q.clauses.filterMap Clause.joined? = [(.inner, pets), (.left, toys)] := by
  intro pets toys ss
  obtain ⟨-, htaken, hrecords⟩ := steps_accepted ss
  obtain ⟨q, hq⟩ : ∃ q, start.steps ss = .ok q :=
    htaken.mpr ⟨⟨ss.map Step.kind ++ [.on], by decide, List.prefix_append _ _⟩, by simp [ss]⟩
  have hr := hrecords q hq
  exact ⟨q, hq, hr, hr.waiting.mpr ⟨ss.dropLast, .left, toys, rfl⟩, hr.joined⟩

end Query
end SqlBuilder
