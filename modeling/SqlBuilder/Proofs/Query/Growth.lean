import SqlBuilder.Call
import SqlBuilder.Proofs.Query.Plan
import SqlBuilder.Proofs.Rendering.FirstSeen

/-!
# A building step extends the text of a query

A query is written as a whole each time, in a session of its own. Still every step only adds to
the end: what the query is after the step is written as what it was before, and then what the step
adds (`Step.write`), in the session that the first part leaves. So text and parameters of a stage
are prefixes of those of every later stage.

For a step that adds clauses this is the order of writing. A condition edits a clause that is there
already. It is an extension all the same, because the clause is the last one (`snoc_on`) and a join
writes its condition last (`templates_snoc_join`).
-/

namespace SqlBuilder

/-! ## Clauses added at the end -/

theorem Clause.templates_append (before after : List Clause) :
    templates (before ++ after) = templates before ++ templates after := by
  induction before with
  | nil => rfl
  | cons clause before ih => rw [List.cons_append, templates, ih, templates, List.append_assoc]

/-- A join writes its condition last. -/
theorem Clause.templates_snoc_join (cs : List Clause) (kind : JoinKind) (t : Table)
    (c : Condition) : templates (cs ++ [.join kind t (some c)]) =
      templates (cs ++ [.join kind t none]) ++ .text " ON " :: c.template := by
  simp only [templates_append, templates, Clause.template, List.append_nil, List.append_assoc,
    List.cons_append]

namespace Step

/-- What a step adds to the text, in a session: a condition after ` ON `, or its clauses. -/
def write (session : Session) : Step → String × Session
  | on condition =>
    let (text, session) := session.write .reference (.condition condition)
    (" ON " ++ text, session)
  | s => session.write .output (.query s.clauses)

/-- The pieces that a step adds. -/
def template : Step → Template
  | on condition => .text " ON " :: condition.template
  | s => Clause.templates s.clauses

theorem write_eq_fill (session : Session) (s : Step) :
    s.write session = session.fill s.template := by
  cases s <;> rfl

end Step

namespace Query

variable {q q' : Query} {s : Step} {ss : List Step} {d : Dialect}

/-- The query in a session of its own. -/
def write (q : Query) (d : Dialect) : String × Session :=
  (Session.start d).write .output (.query q.clauses)

/-- The query as a statement. -/
def statement (q : Query) (d : Dialect) : Statement := (Node.query q.clauses).statement d

theorem write_eq_fill (q : Query) (d : Dialect) :
    q.write d = (Session.start d).fill (Clause.templates q.clauses) := rfl

theorem statement_eq (q : Query) (d : Dialect) :
    q.statement d = (q.write d).2.statement (q.write d).1 := rfl

/-! ## One step -/

/-- A step adds its pieces at the end, a condition included. -/
theorem templates_step (h : start.steps ss = .ok q) (hs : q.step s = .ok q') :
    Clause.templates q'.clauses = Clause.templates q.clauses ++ s.template := by
  by_cases hon : s.kind = .on
  · obtain ⟨c, rfl⟩ := Step.kind_eq_on_iff.mp hon
    obtain ⟨cs, kind, t, hbefore, hafter⟩ := snoc_on (steps_snoc_eq_ok_iff.mpr ⟨q, h, hs⟩)
    obtain rfl := Except.ok.inj (h.symm.trans hbefore)
    rw [hafter]
    exact Clause.templates_snoc_join cs kind t c
  · obtain ⟨-, -, hclauses⟩ := step_eq_ok_iff.mp hs
    rw [hclauses, Step.addTo_of_kind_ne_on hon, Clause.templates_append]
    cases s with
    | on c => exact absurd rfl hon
    | _ => rfl

/-- **A step of a run is written after the query before it.** -/
theorem write_step (h : start.steps ss = .ok q) (hs : q.step s = .ok q') (d : Dialect) :
    q'.write d = ((q.write d).1 ++ (s.write (q.write d).2).1, (s.write (q.write d).2).2) := by
  rw [write_eq_fill, templates_step h hs, Session.fill_append, Step.write_eq_fill, ← write_eq_fill]

/-- Text and parameters of the first query begin those of the second. -/
structure Extends (d : Dialect) (q q' : Query) : Prop where
  sql : (q.statement d).sql.toList <+: (q'.statement d).sql.toList
  params : (q.statement d).params <+: (q'.statement d).params

theorem Extends.refl (d : Dialect) (q : Query) : Extends d q q :=
  ⟨List.prefix_refl _, List.prefix_refl _⟩

theorem Extends.trans {p : Query} (h : Extends d p q) (h' : Extends d q q') : Extends d p q' :=
  ⟨h.sql.trans h'.sql, h.params.trans h'.params⟩

theorem extends_step (h : start.steps ss = .ok q) (hs : q.step s = .ok q') (d : Dialect) :
    Extends d q q' where
  sql := by
    show (q.write d).1.toList <+: (q'.write d).1.toList
    rw [write_step h hs, String.toList_append]
    exact List.prefix_append _ _
  params := by
    show (q.write d).2.params.values <+: (q'.write d).2.params.values
    rw [write_step h hs, Step.write_eq_fill]
    exact Session.prefix_fill _ _

/-! ## A run -/

/-- Each stage of a run extends every earlier one. -/
theorem extends_steps {before after : List Step} (h : start.steps before = .ok q)
    (hafter : q.steps after = .ok q') (d : Dialect) : Extends d q q' := by
  induction after generalizing q before with
  | nil =>
    obtain rfl := steps_nil_eq_ok_iff.mp hafter
    exact .refl d q
  | cons s after ih =>
    obtain ⟨p, hp, hrest⟩ := steps_cons_eq_ok_iff.mp hafter
    exact (extends_step h hp d).trans (ih (steps_snoc_eq_ok_iff.mpr ⟨q, h, hp⟩) hrest)

theorem write_joins_of_absent {items : List (Option Join)} (h : ∀ item ∈ items, item = none)
    (session : Session) : (Step.joins items).write session = ("", session) := by
  have hnil : items.filterMap id = [] := List.filterMap_eq_nil_iff.mpr h
  rw [Step.write_eq_fill, Step.template, Step.clauses, hnil]
  · rfl
  · intro condition hon
    exact Step.noConfusion hon

/-- **Every step of a run only adds to the statement.** The statement after the step is that before
it and then what the step adds, written in the session that the query before it leaves, and it
begins the statement of the whole run. Joins without a table add nothing. -/
theorem steps_extend (d : Dialect) {before after : List Step} {s : Step} {final : Query}
    (h : start.steps (before ++ s :: after) = .ok final) :
    ∃ q q', start.steps before = .ok q ∧ q.step s = .ok q' ∧ q'.steps after = .ok final ∧
      Extends d q q' ∧ Extends d q' final ∧
      (let added := s.write (q.write d).2
       q'.statement d = added.2.statement ((q.statement d).sql ++ added.1)) ∧
      ∀ items, s = .joins items → (∀ item ∈ items, item = none) →
        q'.statement d = q.statement d := by
  obtain ⟨q, hq, hrest⟩ := steps_append_eq_ok_iff.mp h
  obtain ⟨q', hq', hafter⟩ := steps_cons_eq_ok_iff.mp hrest
  have hstatement : q'.statement d =
      (s.write (q.write d).2).2.statement ((q.statement d).sql ++ (s.write (q.write d).2).1) := by
    rw [statement_eq, write_step hq hq']
    rfl
  have hrun : start.steps (before ++ [s]) = .ok q' := steps_snoc_eq_ok_iff.mpr ⟨q, hq, hq'⟩
  refine ⟨q, q', hq, hq', hafter, extends_step hq hq' d, extends_steps hrun hafter d,
    hstatement, ?_⟩
  rintro items rfl hitems
  rw [hstatement, write_joins_of_absent hitems, String.append_empty]
  rfl

/-- A condition with a literal that the query has already: the step repeats its placeholder. -/
theorem steps_extend_condition :
    let pets : Table := .derived ⟨1, [.select false [], .fromTable (.ofName "animals"),
      .filter (.compareLiteral (.verbatim "age") .lt (.int 7))]⟩ "pets"
    let before : List Step := [.selectAll false, .fromTable (.ofName "people"), .join .left pets]
    let s : Step := .on (.inLiterals (.verbatim "x") [.int 7, .int 8])
    ∃ q q', start.steps before = .ok q ∧ q.step s = .ok q' ∧ Extends .postgres q q' ∧
      (q.statement .postgres).sql =
        "SELECT * FROM people LEFT JOIN (SELECT * FROM animals WHERE age < $1) AS pets" ∧
      q'.statement .postgres = ⟨"SELECT * FROM people LEFT JOIN " ++
        "(SELECT * FROM animals WHERE age < $1) AS pets ON x IN ($1, $2)", [.int 7, .int 8]⟩ := by
  intro pets before s
  let cs : List Clause := [.select false [], .fromTable (.ofName "people"), .join .left pets none]
  have hbefore : start.steps before = .ok ⟨.join, cs⟩ := rfl
  have hrun : start.steps (before ++ [s]) = .ok ⟨.fromTable, s.addTo cs⟩ := rfl
  obtain ⟨q, q', hq, hs, -, hextends, -, hstatement, -⟩ := steps_extend .postgres hrun
  obtain rfl := Except.ok.inj (hbefore.symm.trans hq)
  have hsql : (statement ⟨.join, cs⟩ .postgres).sql =
      "SELECT * FROM people LEFT JOIN (SELECT * FROM animals WHERE age < $1) AS pets" := by
    decide +kernel
  refine ⟨_, q', hq, hs, hextends, hsql, ?_⟩
  rw [hstatement, hsql]
  exact congrArg₂ Statement.mk (by decide +kernel) (by decide +kernel)

end Query
end SqlBuilder
