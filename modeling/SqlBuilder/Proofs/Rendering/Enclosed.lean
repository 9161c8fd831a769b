import SqlBuilder.Proofs.Rendering.Plain

/-!
# A grammar of templates with parentheses in pairs

`Template.Enclosed` is the grammar: pieces without parentheses, groups between a text that opens one
and the piece that closes it, and nested queries, which have a parenthesis right before the mark
`enter` and one right after the mark `leave`. What a plain node writes is in the grammar
(`Node.enclosed_template`, one induction over all kinds of nodes). There are several ways in which a
query gets its parentheses: its own, those of the call that it is the argument of, those of a
derived table and those of `EXISTS`. The induction shows that each place uses exactly one of them;
`DISTINCT` in the parentheses of a call would stand between the parenthesis and the query.

Marks that are not enclosed are not in the grammar, so wherever a nested query begins there is a
parenthesis before it and one behind it (`Enclosed.queriesEnclosed`).
-/

namespace SqlBuilder

/-! ## The grammar -/

/-- The piece writes no parenthesis and is no mark. -/
def Piece.isPlain : Piece → Bool
  | text s => Text.isPlain s
  | column c ctx => Text.isPlain (c.text ctx)
  | slot _ | hidden _ => true
  | enter | leave => false

namespace Template

/-- The grammar of templates whose parentheses are paired: plain pieces, groups from a text that
opens a parenthesis to the piece that closes it, and nested queries, each with a parenthesis right
before and right after its marks. -/
inductive Enclosed : Template → Prop where
  | nil : Enclosed []
  | cons {piece : Piece} {t : Template} :
      piece.isPlain = true → Enclosed t → Enclosed (piece :: t)
  | group {opening : String} {t u : Template} :
      Text.Opens opening → Enclosed t → Enclosed u →
        Enclosed (.text opening :: t ++ .text ")" :: u)
  | query (q : Subquery) {u : Template} :
      Enclosed (Clause.templates q.clauses) → Enclosed u →
        Enclosed (.text "(" :: q.body ++ .text ")" :: u)

variable {s : String} {t u : Template}

namespace Enclosed

theorem append (ht : Enclosed t) (hu : Enclosed u) : Enclosed (t ++ u) := by
  induction ht with
  | nil => exact hu
  | cons hpiece _ ih => exact .cons hpiece ih
  | group hopens ht _ _ ih =>
    rw [List.append_assoc, List.cons_append]
    exact .group hopens ht ih
  | query q ht _ _ ih =>
    rw [List.append_assoc, List.cons_append]
    exact .query q ht ih

theorem text (hs : Text.isPlain s = true) (ht : Enclosed t) : Enclosed (.text s :: t) := .cons hs ht

theorem slot {b : Binding} (ht : Enclosed t) : Enclosed (.slot b :: t) := .cons rfl ht

theorem joined (hs : Text.isPlain s = true) {ts : List Template} (h : ∀ t ∈ ts, Enclosed t) :
    Enclosed (joined s ts) :=
  joined_induction .nil (fun ht hu => ht.append (.text hs hu)) h

theorem hide (t : Template) : Enclosed (hide t) := by
  unfold Template.hide
  induction t.bindings with
  | nil => exact .nil
  | cons b bs ih => exact .cons rfl ih

/-- A template in one pair of parentheses. -/
theorem pair (hs : Text.Opens s) (ht : Enclosed t) : Enclosed (.text s :: t ++ [.text ")"]) :=
  .group hs ht .nil

/-- A nested query in its own parentheses. -/
theorem nested {q : Subquery} (h : Enclosed (Clause.templates q.clauses)) :
    Enclosed (.text "(" :: q.body ++ [.text ")"]) := .query q h .nil

theorem slots (vs : List Value) :
    Enclosed (Template.joined ", " (vs.map fun v => [.slot (.literal v)])) := by
  refine joined (by decide) fun t ht => ?_
  obtain ⟨v, -, rfl⟩ := List.mem_map.mp ht
  exact .slot .nil

/-- A call whose argument is enclosed by the parentheses of the call. -/
theorem called {name : String} {distinct : Bool} {alias? : Option String} {operand : Template}
    (ctx : Context) (hname : Text.isPlain name = true) (halias : alias?.all Text.isPlain = true)
    (h : Enclosed (.text (if distinct then "(DISTINCT " else "(") :: operand ++ [.text ")"])) :
    Enclosed (called ctx name distinct alias? operand) := by
  have hwritten := Enclosed.text hname h
  cases alias? with
  | none => exact hwritten
  | some label =>
    have hlabel : Enclosed [.text label] := .text (by simpa using halias) .nil
    cases huse : ctx.aliasUse with
    | introduced =>
      simp only [Template.called, huse]
      exact hwritten.append (.text (by decide) hlabel)
    | used =>
      simp only [Template.called, huse]
      exact (Enclosed.hide operand).append hlabel
    | ignored =>
      simp only [Template.called, huse]
      exact hwritten

end Enclosed

theorem opens_call (distinct : Bool) : Text.Opens (if distinct then "(DISTINCT " else "(") := by
  cases distinct
  · exact ⟨"", "", rfl, rfl, rfl⟩
  · exact ⟨"", "DISTINCT ", by decide, by decide, by decide⟩

theorem opens_in : Text.Opens " IN (" := ⟨" IN ", "", by decide, by decide, by decide⟩

theorem opens_parenthesis : Text.Opens "(" := ⟨"", "", rfl, rfl, rfl⟩

theorem Enclosed.enclose (set : Expr) (h : Enclosed t) : Enclosed (set.enclose t) := by
  unfold Expr.enclose
  split
  · exact h
  · exact .pair opens_parenthesis h

end Template

/-! ## Templates of plain nodes -/

open Template

mutual

theorem Table.enclosed_template : ∀ t : Table, t.isPlain = true → Enclosed t.template
  | ⟨name, alias?, source⟩, h => by
    obtain ⟨⟨hname, halias⟩, hsource⟩ :
        (Text.isPlain name = true ∧ alias?.all Text.isPlain = true) ∧ source.isPlain = true := by
      simpa only [Table.isPlain, Bool.and_eq_true] using h
    simp only [Table.template]
    refine (source.enclosed_template hname hsource).append ?_
    cases alias? with
    | none => exact .nil
    | some label => exact .text (by decide) (.text (by simpa using halias) .nil)

theorem Source.enclosed_template {name : String} (hname : Text.isPlain name = true) :
    ∀ s : Source, s.isPlain = true → Enclosed (s.template name)
  | .base, _ => by
    rw [Source.template]
    exact .text hname .nil
  | .derived query, h => by
    rw [Source.template]
    exact .nested (query.enclosed_clauses (by simpa only [Source.isPlain] using h))

theorem Subquery.enclosed_clauses :
    ∀ q : Subquery, q.isPlain = true → Enclosed (Clause.templates q.clauses)
  | ⟨_, clauses⟩, h => Clause.enclosed_templates clauses (by simpa only [Subquery.isPlain] using h)

theorem Call.enclosed_template (ctx : Context) :
    ∀ f : Call, f.isPlain = true → Enclosed (f.template ctx)
  | ⟨name, arg, distinct, bare, alias?⟩, h => by
    obtain ⟨⟨⟨hname, halias⟩, hbare⟩, harg⟩ :
        ((Text.isPlain name = true ∧ alias?.all Text.isPlain = true) ∧
          (bare = false ∨ distinct = false)) ∧ arg.isPlain = true := by
      simpa [Call.isPlain] using h
    rw [Call.template_eq]
    refine .called ctx hname halias ?_
    rcases hbare with rfl | rfl
    · exact .pair (opens_call distinct) (arg.enclosed_template .reference harg)
    · rw [if_neg Bool.false_ne_true]
      unfold Call.operand
      split
      · rename_i query _ hquery
        cases hquery
        exact .nested (query.enclosed_clauses (by simpa only [Expr.isPlain] using harg))
      · exact .pair opens_parenthesis (arg.enclosed_template .reference harg)

theorem Expr.enclosed_template (ctx : Context) :
    ∀ e : Expr, e.isPlain = true → Enclosed (e.template ctx)
  | .column c, h => by
    rw [Expr.template]
    exact .cons (c.isPlain_text (by simpa only [Expr.isPlain] using h) ctx) .nil
  | .param _, _ | .array _ _, _ => by
    rw [Expr.template]
    exact .slot .nil
  | .call f, h => by
    rw [Expr.template]
    exact f.enclosed_template ctx (by simpa only [Expr.isPlain] using h)
  | .composite separator items, h => by
    obtain ⟨hseparator, hitems⟩ :
        Text.isPlain separator = true ∧ Expr.allPlain items = true := by
      simpa only [Expr.isPlain, Bool.and_eq_true] using h
    rw [Expr.template]
    exact .joined hseparator (Expr.enclosed_templates ctx items hitems)
  | .subquery query, h => by
    rw [Expr.template]
    exact .nested (query.enclosed_clauses (by simpa only [Expr.isPlain] using h))
  | .table t, h => by
    rw [Expr.template]
    exact t.enclosed_template (by simpa only [Expr.isPlain] using h)
  | .tableRef _, h => by
    rw [Expr.template]
    exact .text (by simpa only [Expr.isPlain] using h) .nil

theorem Expr.enclosed_templates (ctx : Context) :
    ∀ es : List Expr, Expr.allPlain es = true → ∀ t ∈ Expr.templates ctx es, Enclosed t
  | [], _ => by simp [Expr.templates]
  | e :: es, h => by
    obtain ⟨he, hes⟩ : e.isPlain = true ∧ Expr.allPlain es = true := by
      simpa only [Expr.allPlain, Bool.and_eq_true] using h
    rw [Expr.templates, List.forall_mem_cons]
    exact ⟨e.enclosed_template ctx he, Expr.enclosed_templates ctx es hes⟩

theorem Condition.enclosed_template :
    ∀ c : Condition, c.isPlain = true → Enclosed c.template
  | .compare left op right, h => by
    obtain ⟨hleft, hright⟩ : left.isPlain = true ∧ right.isPlain = true := by
      simpa only [Condition.isPlain, Bool.and_eq_true] using h
    rw [Condition.template]
    exact (left.enclosed_template .reference hleft).append
      (.text (by simp) (right.enclosed_template .reference hright))
  | .compareLiteral left op value, h => by
    rw [Condition.template]
    exact (left.enclosed_template .reference (by simpa only [Condition.isPlain] using h)).append
      (.text (by simp) (.slot .nil))
  | .inLiterals left values, h => by
    rw [Condition.template]
    split_ifs
    · exact .text (by decide) .nil
    · rw [List.append_assoc]
      exact (left.enclosed_template .reference (by simpa only [Condition.isPlain] using h)).append
        (.pair opens_in (.slots values))
  | .memberOf left set, h => by
    obtain ⟨hleft, hset⟩ : left.isPlain = true ∧ set.isPlain = true := by
      simpa only [Condition.isPlain, Bool.and_eq_true] using h
    rw [Condition.template]
    exact (left.enclosed_template .reference hleft).append
      (.text (by decide) (.enclose set (set.enclosed_template .reference hset)))
  | .compareSet left op quantifier set, h => by
    obtain ⟨hleft, hset⟩ : left.isPlain = true ∧ set.isPlain = true := by
      simpa only [Condition.isPlain, Bool.and_eq_true] using h
    rw [Condition.template]
    exact (left.enclosed_template .reference hleft).append
      (.text (by simp) (.enclose set (set.enclosed_template .reference hset)))
  | .isNull operand negated, h => by
    rw [Condition.template]
    exact (operand.enclosed_template .reference (by simpa only [Condition.isPlain] using h)).append
      (.text (by cases negated <;> decide) .nil)
  | .existsRows query, h => by
    rw [Condition.template]
    exact .text (by decide)
      (.nested (query.enclosed_clauses (by simpa only [Condition.isPlain] using h)))
  | .chain connective items, h => by
    rw [Condition.template]
    exact .joined (by simp)
      (Condition.enclosed_templates items (by simpa only [Condition.isPlain] using h))
  | .grouped inner, h => by
    rw [Condition.template]
    exact .pair opens_parenthesis
      (inner.enclosed_template (by simpa only [Condition.isPlain] using h))

theorem Condition.enclosed_templates :
    ∀ cs : List Condition, Condition.allPlain cs = true →
      ∀ t ∈ Condition.templates cs, Enclosed t
  | [], _ => by simp [Condition.templates]
  | c :: cs, h => by
    obtain ⟨hc, hcs⟩ : c.isPlain = true ∧ Condition.allPlain cs = true := by
      simpa only [Condition.allPlain, Bool.and_eq_true] using h
    rw [Condition.templates, List.forall_mem_cons]
    exact ⟨c.enclosed_template hc, Condition.enclosed_templates cs hcs⟩

theorem SortKey.enclosed_template : ∀ k : SortKey, k.isPlain = true → Enclosed k.template
  | ⟨expr, _⟩, h => by
    rw [SortKey.template]
    exact (expr.enclosed_template .orderBy (by simpa only [SortKey.isPlain] using h)).append
      (.text (by simp) .nil)

theorem SortKey.enclosed_templates :
    ∀ ks : List SortKey, SortKey.allPlain ks = true → ∀ t ∈ SortKey.templates ks, Enclosed t
  | [], _ => by simp [SortKey.templates]
  | k :: ks, h => by
    obtain ⟨hk, hks⟩ : k.isPlain = true ∧ SortKey.allPlain ks = true := by
      simpa only [SortKey.allPlain, Bool.and_eq_true] using h
    rw [SortKey.templates, List.forall_mem_cons]
    exact ⟨k.enclosed_template hk, SortKey.enclosed_templates ks hks⟩

theorem Clause.enclosed_template : ∀ c : Clause, c.isPlain = true → Enclosed c.template
  | .select distinct items, h => by
    rw [Clause.template]
    refine .text (by cases distinct <;> decide) ?_
    split_ifs
    · exact .text (by decide) .nil
    · exact .joined (by decide)
        (Expr.enclosed_templates .definition items (by simpa only [Clause.isPlain] using h))
  | .fromTable t, h => by
    rw [Clause.template]
    exact .text (by decide) (t.enclosed_template (by simpa only [Clause.isPlain] using h))
  | .join kind target none, h => by
    rw [Clause.template, List.append_nil]
    exact .text (by simp)
      (target.enclosed_template (by simpa only [Clause.isPlain, Bool.and_true] using h))
  | .join kind target (some condition), h => by
    obtain ⟨htarget, hcondition⟩ : target.isPlain = true ∧ condition.isPlain = true := by
      simpa only [Clause.isPlain, Bool.and_eq_true] using h
    rw [Clause.template]
    exact .text (by simp) ((target.enclosed_template htarget).append
      (.text (by decide) (condition.enclosed_template hcondition)))
  | .filter condition, h | .having condition, h => by
    rw [Clause.template]
    exact .text (by decide)
      (condition.enclosed_template (by simpa only [Clause.isPlain] using h))
  | .groupBy items, h => by
    rw [Clause.template]
    exact .text (by decide) (.joined (by decide)
      (Expr.enclosed_templates .reference items (by simpa only [Clause.isPlain] using h)))
  | .orderBy keys, h => by
    rw [Clause.template]
    exact .text (by decide) (.joined (by decide)
      (SortKey.enclosed_templates keys (by simpa only [Clause.isPlain] using h)))
  | .limit count, _ | .offset count, _ => by
    rw [Clause.template]
    exact .text (by decide) (.text (Text.isPlain_toString count) .nil)

theorem Clause.enclosed_templates :
    ∀ cs : List Clause, Clause.allPlain cs = true → Enclosed (Clause.templates cs)
  | [], _ => .nil
  | c :: cs, h => by
    obtain ⟨hc, hcs⟩ : c.isPlain = true ∧ Clause.allPlain cs = true := by
      simpa only [Clause.allPlain, Bool.and_eq_true] using h
    rw [Clause.templates]
    exact (c.enclosed_template hc).append (Clause.enclosed_templates cs hcs)

end

/-- **What a plain node writes is in the grammar**, in every context. -/
theorem Node.enclosed_template (ctx : Context) {node : Node} (h : node.isPlain = true) :
    Enclosed (node.template ctx) := by
  cases node with
  | expr e => exact e.enclosed_template ctx h
  | condition c => exact c.enclosed_template h
  | sortKey k => exact k.enclosed_template h
  | table t => exact t.enclosed_template h
  | tableRef t => exact .text h .nil
  | query clauses => exact Clause.enclosed_templates clauses h

/-! ## Marks -/

namespace Template

/-- Right before the clauses of a nested query a parenthesis opens, right after them it closes. -/
def HasQuery (t before : Template) (clauses : List Clause) : Prop :=
  ∃ outer after, before = outer ++ [.text "("] ∧
    t = before ++ .enter :: Clause.templates clauses ++ .leave :: .text ")" :: after

variable {t u before : Template} {clauses : List Clause}

/-- A piece of two templates in a row stands in one of them. -/
theorem append_eq_append_cons {rest : Template} {piece : Piece}
    (h : t ++ u = before ++ piece :: rest) :
    (∃ after, t = before ++ piece :: after) ∨
      ∃ middle, before = t ++ middle ∧ u = middle ++ piece :: rest := by
  rcases List.append_eq_append_iff.mp h with ⟨middle, hbefore, hu⟩ | ⟨after, ht, hrest⟩
  · exact .inr ⟨middle, hbefore, hu⟩
  · cases after with
    | nil => exact .inr ⟨[], by simpa using ht.symm, by simpa using hrest.symm⟩
    | cons piece' after =>
      cases hrest
      exact .inl ⟨after, ht⟩

namespace HasQuery

theorem append_right (h : t.HasQuery before clauses) (u : Template) :
    (t ++ u).HasQuery before clauses := by
  obtain ⟨outer, after, hbefore, rfl⟩ := h
  exact ⟨outer, after ++ u, hbefore, by simp⟩

theorem append_left (h : t.HasQuery before clauses) (u : Template) :
    (u ++ t).HasQuery (u ++ before) clauses := by
  obtain ⟨outer, after, rfl, rfl⟩ := h
  exact ⟨u ++ outer, after, by simp, by simp⟩

end HasQuery

/-- Every mark where a nested query begins belongs to one in parentheses, whose template is in the
grammar. -/
def QueriesEnclosed (t : Template) : Prop :=
  ∀ before rest, t = before ++ .enter :: rest →
    ∃ clauses, t.HasQuery before clauses ∧ Enclosed (Clause.templates clauses)

namespace QueriesEnclosed

theorem cons (piece : Piece) (hpiece : piece ≠ .enter) (ht : QueriesEnclosed t) :
    QueriesEnclosed (piece :: t) := by
  intro before rest heq
  cases before with
  | nil =>
    cases heq
    exact absurd rfl hpiece
  | cons piece' before =>
    obtain ⟨rfl, htail⟩ := List.cons_eq_cons.mp heq
    obtain ⟨clauses, hquery, hclauses⟩ := ht before rest htail
    exact ⟨clauses, hquery.append_left [piece], hclauses⟩

theorem append (ht : QueriesEnclosed t) (hu : QueriesEnclosed u) : QueriesEnclosed (t ++ u) := by
  intro before rest heq
  rcases append_eq_append_cons heq with ⟨after, hleft⟩ | ⟨middle, rfl, hright⟩
  · obtain ⟨clauses, hquery, hclauses⟩ := ht before after hleft
    exact ⟨clauses, hquery.append_right u, hclauses⟩
  · obtain ⟨clauses, hquery, hclauses⟩ := hu middle rest hright
    exact ⟨clauses, hquery.append_left t, hclauses⟩

theorem query (hclauses : Enclosed (Clause.templates clauses))
    (ht : QueriesEnclosed (Clause.templates clauses)) (hu : QueriesEnclosed u) :
    QueriesEnclosed
      (.text "(" :: .enter :: (Clause.templates clauses ++ .leave :: .text ")" :: u)) := by
  intro before rest heq
  match before with
  | [] => cases heq
  | [piece] =>
    cases heq
    exact ⟨clauses, ⟨[], u, rfl, rfl⟩, hclauses⟩
  | piece :: mark :: before =>
    obtain ⟨rfl, htail⟩ := List.cons_eq_cons.mp heq
    obtain ⟨rfl, hinner⟩ := List.cons_eq_cons.mp htail
    have hinside := ht.append (.cons .leave nofun (.cons (.text ")") nofun hu))
    obtain ⟨clauses', hquery, hclauses'⟩ := hinside before rest hinner
    exact ⟨clauses', hquery.append_left [.text "(", .enter], hclauses'⟩

end QueriesEnclosed

/-- **In the grammar every nested query has its parentheses**, whatever it stands in. -/
theorem Enclosed.queriesEnclosed (h : Enclosed t) : QueriesEnclosed t := by
  induction h with
  | nil => exact fun before rest heq => by simp at heq
  | @cons piece t hpiece _ ih =>
    refine .cons piece ?_ ih
    rintro rfl
    exact Bool.false_ne_true hpiece
  | @group opening _ _ _ _ _ ih ihrest =>
    exact .cons (.text opening) nofun (ih.append (.cons (.text ")") nofun ihrest))
  | query q hclauses _ ih ihrest =>
    obtain ⟨id, clauses⟩ := q
    rw [Subquery.body]
    simpa using QueriesEnclosed.query hclauses ih ihrest

end Template
end SqlBuilder
