import SqlBuilder.Call
import SqlBuilder.Proofs.Rendering.Chaining
import SqlBuilder.Proofs.Rendering.Enclosed

/-!
# Nested queries stand in parentheses

What is in the grammar is written with balanced parentheses, in every session whose placeholders
have none (`Enclosed.balanced`). Each of the queries that a node contains has its place there
(`Node.Contains.exists_hasQuery`). `Session.write_enclosed` puts this together for nodes: the text
is balanced, and so is what is written for every nested query, between an opening parenthesis and
the one that matches it.
-/

namespace SqlBuilder

/-! ## Texts -/

namespace Session

variable {session : Session} {t u : Template}

theorem fill_cons (session : Session) (piece : Piece) (t : Template) :
    (session.fill (piece :: t)).1 =
      (piece.write session.dialect session.params).1 ++
        (fill ⟨session.dialect, (piece.write session.dialect session.params).2⟩ t).1 := rfl

theorem fill_enter (session : Session) (t : Template) :
    session.fill (.enter :: t) = session.fill t := by
  simp [fill, Template.write, Piece.write]

theorem fill_leave (session : Session) (t : Template) :
    session.fill (.leave :: t) = session.fill t := by
  simp [fill, Template.write, Piece.write]

/-- The marks around a nested query write nothing. -/
theorem fill_body (session : Session) (q : Subquery) :
    session.fill q.body = session.fill (Clause.templates q.clauses) := by
  obtain ⟨id, clauses⟩ := q
  rw [Subquery.body, List.cons_append, fill_enter, fill_append, fill_leave]
  simp [fill, Template.write]

theorem fill_nested (session : Session) (before t after : Template) :
    (session.fill (before ++ .enter :: t ++ .leave :: after)).1 =
      (session.fill before).1 ++ ((session.fill before).2.fill t).1 ++
        (((session.fill before).2.fill t).2.fill after).1 := by
  rw [List.append_assoc, List.cons_append, fill_append, fill_enter, fill_append, fill_leave,
    ← String.append_assoc]

end Session

/-- **What is in the grammar is written with balanced parentheses**, if placeholders have none. -/
theorem Template.Enclosed.balanced {t : Template} (h : Enclosed t) {s : Session}
    (hs : ∀ n, Text.isPlain (s.dialect.placeholder n) = true) : Text.Balanced (s.fill t).1 := by
  induction h generalizing s with
  | nil => exact .of_isPlain rfl
  | @cons piece t hpiece _ ih =>
    rw [Session.fill_cons]
    refine .append (.of_isPlain ?_) (ih hs)
    cases piece with
    | text | column => exact hpiece
    | slot => exact hs _
    | hidden => rfl
    | enter | leave => exact absurd hpiece Bool.false_ne_true
  | @group opening t u hopens _ _ ih ihrest =>
    rw [List.cons_append, Session.fill_text_cons, Session.fill_append, Session.fill_text_cons]
    have hall := (hopens.balanced (ih hs)).append (ihrest (s := (s.fill t).2) hs)
    simpa only [String.append_assoc] using hall
  | query q _ _ ih ihrest =>
    rw [List.cons_append, Session.fill_text_cons, Session.fill_append, Session.fill_text_cons,
      Session.fill_body]
    have hall := (opens_parenthesis.balanced (ih hs)).append
      (ihrest (s := (s.fill (Clause.templates q.clauses)).2) hs)
    simpa only [String.append_assoc] using hall

/-! ## Places of nested queries -/

section

variable {ctx c : Context} {node part : Node} {clauses : List Clause}

theorem Template.hasQuery_body (t : Template) (q : Subquery) (u : Template) :
    (t ++ .text "(" :: q.body ++ .text ")" :: u).HasQuery (t ++ [.text "("]) q.clauses := by
  obtain ⟨id, clauses⟩ := q
  refine ⟨t, u, rfl, ?_⟩
  rw [Subquery.body]
  simp

theorem Call.hasQuery_of_mem_parts {f : Call} (h : f.isPlain = true)
    (hpart : (c, .query clauses) ∈ f.parts ctx) :
    ∃ before, (f.template ctx).HasQuery before clauses := by
  obtain ⟨hnotUsed, hargPart⟩ := f.argPart_of_mem_parts hpart
  obtain ⟨name, arg, distinct, bare, alias?⟩ := f
  unfold argPart at hargPart
  split at hargPart
  · rename_i query hbare hquery
    cases hbare
    cases hquery
    cases hargPart
    obtain rfl : distinct = false := by
      simp only [Call.isPlain, Bool.and_eq_true, Bool.true_and, Bool.not_eq_true'] at h
      exact h.1.2
    obtain ⟨suffix, hcalled⟩ := Template.prefix_called name false query.body hnotUsed
    rw [Call.template_eq]
    have hwritten := (Template.hasQuery_body [.text name] query []).append_right suffix
    exact ⟨_, hcalled ▸ hwritten⟩
  · cases hargPart

/-- A nested query is written between parentheses, in each of the ways that there are. -/
theorem Node.hasQuery_of_mem_parts (h : node.isPlain = true)
    (hpart : (c, .query clauses) ∈ node.parts ctx) :
    ∃ before, (node.template ctx).HasQuery before clauses := by
  cases node with
  | expr e =>
    cases e with
    | call f =>
      have hcall : f.isPlain = true := by simpa only [Node.isPlain, Expr.isPlain] using h
      obtain ⟨before, hquery⟩ := f.hasQuery_of_mem_parts hcall hpart
      exact ⟨before, by simpa only [Node.template, Expr.template] using hquery⟩
    | subquery query =>
      cases List.mem_singleton.mp hpart
      simp only [Node.template, Expr.template]
      exact ⟨_, Template.hasQuery_body [] query []⟩
    | composite | table => simp [Node.parts, Expr.parts, Expr.part, Table.part] at hpart
    | column | param | array | tableRef => exact absurd hpart List.not_mem_nil
  | condition k =>
    cases k with
    | existsRows query =>
      cases List.mem_singleton.mp hpart
      simp only [Node.template, Condition.template]
      exact ⟨_, Template.hasQuery_body [.text "EXISTS"] query []⟩
    | inLiterals left values =>
      cases values <;> simp [Node.parts, Condition.parts, Expr.part] at hpart
    | _ => simp [Node.parts, Condition.parts, Expr.part, Condition.part] at hpart
  | sortKey k => simp [Node.parts, Expr.part] at hpart
  | table t =>
    obtain ⟨name, alias?, source⟩ := t
    cases source with
    | base => exact absurd hpart List.not_mem_nil
    | derived query =>
      cases List.mem_singleton.mp hpart
      simp only [Node.template, Table.template, Source.template]
      exact ⟨_, (Template.hasQuery_body [] query []).append_right _⟩
  | tableRef t => exact absurd hpart List.not_mem_nil
  | query clauses =>
    obtain ⟨clause, -, hpart⟩ := List.mem_flatMap.mp hpart
    cases clause with
    | join kind target on? => cases on? <;> simp [Clause.parts, Table.part, Condition.part] at hpart
    | _ => simp [Clause.parts, Expr.part, Table.part, Condition.part] at hpart

/-- **A nested query at any depth has a place between parentheses.** -/
theorem Node.Contains.exists_hasQuery (h : node.isPlain = true)
    (hcontains : node.Contains ctx c part) {d : Context}
    (hpart : (d, .query clauses) ∈ part.parts c) :
    ∃ before, (node.template ctx).HasQuery before clauses := by
  obtain ⟨before, hquery⟩ := Node.hasQuery_of_mem_parts (hcontains.isPlain h) hpart
  obtain ⟨outer, after, hplace⟩ := hcontains.exists_place
  rw [hplace]
  exact ⟨outer ++ before, (hquery.append_left outer).append_right after⟩

end

/-! ## Sessions -/

theorem Dialect.Kind.isPlain_placeholder (k : Kind) (n : Nat) :
    Text.isPlain (k.dialect.placeholder n) = true := by
  cases k with
  | standard =>
    change Text.isPlain "?" = true
    decide
  | postgres =>
    change Text.isPlain ("$" ++ toString n) = true
    rw [Text.isPlain_append, Text.isPlain_toString, Bool.and_true]
    decide

namespace Session

/-- The clauses that begin after `before` are written balanced, with a parenthesis right before them
and the matching one right after them in the text. -/
def Encloses (s : Session) (text : String) (before : Template) (clauses : List Clause) : Prop :=
  let body := ((s.fill before).2.write .output (.query clauses)).1
  ∃ left right, (s.fill before).1 = left ++ "(" ∧ Text.Balanced body ∧
    text = left ++ "(" ++ body ++ ")" ++ right

theorem encloses_of_hasQuery {s : Session} {t before : Template} {clauses : List Clause}
    (hs : ∀ n, Text.isPlain (s.dialect.placeholder n) = true) (h : t.HasQuery before clauses)
    (hclauses : (Clause.templates clauses).Enclosed) : s.Encloses (s.fill t).1 before clauses := by
  obtain ⟨outer, after, rfl, rfl⟩ := h
  have hopening : (s.fill (outer ++ [.text "("])).1 = (s.fill outer).1 ++ "(" := by
    rw [fill_append]
    rfl
  let inside := (s.fill (outer ++ [.text "("])).2
  let behind := (inside.fill (Clause.templates clauses)).2
  refine ⟨(s.fill outer).1, (behind.fill after).1, hopening, hclauses.balanced hs, ?_⟩
  rw [fill_nested, hopening, fill_text_cons, ← String.append_assoc]
  rfl

/-- **Nested queries always stand in parentheses**, for every node whose texts have none and in
which no bare call has `DISTINCT`, in every context, every session and both dialects.

The text is balanced. Every mark where the clauses of a nested query begin has an opening
parenthesis right before it and the matching one right after the clauses, and what the clauses write
is balanced itself. Every nested query that the node contains, at any depth and in any position, has
such a mark. -/
theorem write_enclosed (kind : Dialect.Kind) (params : Parameters) (ctx : Context) (node : Node)
    (h : node.isPlain = true) :
    let s : Session := ⟨kind.dialect, params⟩
    let text := (s.write ctx node).1
    Text.Balanced text ∧
      (∀ before rest, node.template ctx = before ++ .enter :: rest →
        ∃ clauses after, rest = Clause.templates clauses ++ .leave :: after ∧
          s.Encloses text before clauses) ∧
      ∀ c part, node.Contains ctx c part → ∀ d clauses, (d, .query clauses) ∈ part.parts c →
        ∃ before after,
          node.template ctx = before ++ .enter :: Clause.templates clauses ++ .leave :: after ∧
            s.Encloses text before clauses := by
  intro s text
  have hs : ∀ n, Text.isPlain (s.dialect.placeholder n) = true := kind.isPlain_placeholder
  have henclosed := node.enclosed_template ctx h
  refine ⟨henclosed.balanced hs, ?_, ?_⟩
  · intro before rest heq
    obtain ⟨clauses, hquery, hclauses⟩ := henclosed.queriesEnclosed before rest heq
    have hencloses := encloses_of_hasQuery hs hquery hclauses
    obtain ⟨outer, after, -, heq'⟩ := hquery
    rw [heq, List.append_assoc] at heq'
    exact ⟨clauses, _, List.tail_eq_of_cons_eq (List.append_cancel_left heq'), hencloses⟩
  · intro c part hcontains d clauses hpart
    have hclauses : Clause.allPlain clauses = true :=
      Node.isPlain_of_mem_parts (hcontains.isPlain h) hpart
    obtain ⟨before, hquery⟩ := hcontains.exists_hasQuery h hpart
    have hencloses := encloses_of_hasQuery hs hquery (Clause.enclosed_templates clauses hclauses)
    obtain ⟨outer, after, -, heq⟩ := hquery
    exact ⟨before, _, heq, hencloses⟩

/-- Queries as the argument of a call that brings the parentheses, as one of several arguments, as
sets, as a source of rows and behind `EXISTS`, two of them with a query inside. The sort key is
written as its alias. -/
theorem write_enclosed_in_every_position :
    let t : Table := .ofName "t"
    let a : Expr := .column (t.column "a" .any)
    let deep : Subquery := ⟨1, [.select false [a], .fromTable t,
      .filter (.compareLiteral a .gt (.int 1))]⟩
    let rows : Subquery := ⟨2, [.select false [a], .fromTable (.derived deep "d")]⟩
    let found : Call := (Call.existsRows rows).aliased "e"
    let node : Node := .query [
      .select false [.call found, .call (.coalesce [.subquery deep, .param (.int 0)])],
      .fromTable t,
      .filter (.chain .and [.grouped (.memberOf a (.subquery rows)),
        .compareSet a .ge .all (.subquery deep), .existsRows deep]),
      .orderBy [⟨.call found, .asc⟩]]
    let text := ((Session.start .postgres).write .output node).1
    node.isPlain = true ∧ Text.Balanced text ∧
      text = "SELECT EXISTS(SELECT t.a FROM (SELECT t.a FROM t WHERE t.a > $1) AS d) AS e, " ++
        "COALESCE((SELECT t.a FROM t WHERE t.a > $1), $2) FROM t " ++
        "WHERE (t.a IN (SELECT t.a FROM (SELECT t.a FROM t WHERE t.a > $1) AS d)) " ++
        "AND t.a >= ALL(SELECT t.a FROM t WHERE t.a > $1) " ++
        "AND EXISTS(SELECT t.a FROM t WHERE t.a > $1) ORDER BY e ASC" ∧
      ∃ before, (Session.start .postgres).Encloses text before deep.clauses := by
  intro t a deep rows found node text
  have hplain : node.isPlain = true := by decide +kernel
  obtain ⟨hbalanced, -, hcontained⟩ := write_enclosed .postgres .empty .output node hplain
  refine ⟨hplain, hbalanced, by decide +kernel, ?_⟩
  have hcall : (.definition, .expr (.call found)) ∈ node.parts .output := List.mem_cons_self
  have hrows : (.output, .query rows.clauses) ∈ (Node.expr (.call found)).parts .definition :=
    List.mem_cons_self
  have hderived : (.definition, .table (.derived deep "d")) ∈
      (Node.query rows.clauses).parts .output := .tail _ List.mem_cons_self
  have hdeep : (.output, .query deep.clauses) ∈
      (Node.table (.derived deep "d")).parts .definition := List.mem_cons_self
  obtain ⟨before, -, -, hencloses⟩ :=
    hcontained _ _ (.part (.part (.part .self hcall) hrows) hderived) _ _ hdeep
  exact ⟨before, hencloses⟩

end Session
end SqlBuilder
