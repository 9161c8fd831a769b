import SqlBuilder.Proofs.Query.Growth
import SqlBuilder.Proofs.Rendering.Parts

/-!
# What follows a keyword

A clause is written as keywords with what follows them, its *phrases*: a join with a condition has
two, every other clause has one (`Clause.template_eq_phrases`). A test for membership is its left
side and a phrase. This module asks when a phrase is written with nothing after the keyword.

Lists without items enter in many places. A select list without items is a star, a test against an
empty list is written without `IN`, and the empty conjunction is a condition of its own. The lists
of `GROUP BY` and `ORDER BY` have no such guard. `phrases_filled_iff` says that these two are the
only ones: where names have a text, chains and composites have items and all queries were built by
steps, a phrase has no body exactly when it is that of a `GROUP BY` or `ORDER BY` without items.

The reason is that everything that is so filled is written as some text (`Expr.shows`,
`Condition.shows`, `Query.Built.shows`).
-/

namespace SqlBuilder

/-! ## Phrases -/

/-- A keyword and what follows it, up to a parenthesis that the keyword opened. -/
structure Phrase where
  opening : Template
  body : Template
  closing : Template

namespace Phrase

def template (p : Phrase) : Template := p.opening ++ p.body ++ p.closing

/-- The phrase stands in a template, after the pieces `before`. -/
def StandsIn (p : Phrase) (t before : Template) : Prop := ∃ after, t = before ++ p.template ++ after

/-- What is written after the keyword, where the phrase stands after `before`. -/
def bodyText (p : Phrase) (d : Dialect) (before : Template) : String :=
  (((Session.start d).fill (before ++ p.opening)).2.fill p.body).1

end Phrase

/-- The phrases of a clause, in order. -/
def Clause.phrases : Clause → List Phrase
  | select distinct items =>
    [⟨[.text (if distinct then "SELECT DISTINCT " else "SELECT ")],
      if items.isEmpty then [.text "*"]
      else Template.joined ", " (Expr.templates .definition items), []⟩]
  | fromTable table => [⟨[.text " FROM "], table.template, []⟩]
  | join kind target on? =>
    ⟨[.text (" " ++ kind.keyword ++ " ")], target.template, []⟩ ::
      (on?.map fun condition => ⟨[.text " ON "], condition.template, []⟩).toList
  | filter condition => [⟨[.text " WHERE "], condition.template, []⟩]
  | groupBy items =>
    [⟨[.text " GROUP BY "], Template.joined ", " (Expr.templates .reference items), []⟩]
  | having condition => [⟨[.text " HAVING "], condition.template, []⟩]
  | orderBy keys => [⟨[.text " ORDER BY "], Template.joined ", " (SortKey.templates keys), []⟩]
  | limit count => [⟨[.text " LIMIT "], [.text (toString count)], []⟩]
  | offset count => [⟨[.text " OFFSET "], [.text (toString count)], []⟩]

/-- What stands in the parentheses around a set. -/
def Expr.enclosed : Expr → Template
  | subquery query => query.body
  | set => set.template .reference

/-- The phrase of a test for membership, if the condition is one. -/
def Condition.phrases : Condition → List Phrase
  | inLiterals _ values =>
    if values.isEmpty then []
    else [⟨[.text " IN ("],
      Template.joined ", " (values.map fun v => [.slot (.literal v)]), [.text ")"]⟩]
  | memberOf _ set => [⟨[.text " IN ", .text "("], set.enclosed, [.text ")"]⟩]
  | _ => []

/-- The phrases that a node is written with itself, those of its parts apart. -/
def Node.phrases : Node → List Phrase
  | query clauses => clauses.flatMap Clause.phrases
  | condition c => c.phrases
  | _ => []

/-- **A clause is its phrases, one after the other.** -/
theorem Clause.template_eq_phrases (k : Clause) :
    k.template = k.phrases.flatMap Phrase.template := by
  cases k with
  | join kind target on? =>
    cases on? <;> simp [Clause.template, phrases, Phrase.template]
  | _ => simp [Clause.template, phrases, Phrase.template]

theorem Clause.templates_eq_phrases (ks : List Clause) :
    Clause.templates ks = (Node.query ks).phrases.flatMap Phrase.template := by
  induction ks with
  | nil => rfl
  | cons k ks ih =>
    rw [Clause.templates, ih, k.template_eq_phrases, Node.phrases, Node.phrases,
      List.flatMap_cons, List.flatMap_append]

theorem Expr.enclose_template (set : Expr) :
    set.enclose (set.template .reference) = .text "(" :: set.enclosed ++ [.text ")"] := by
  cases set <;> rfl

theorem Condition.infix_of_mem_phrases {k : Condition} {p : Phrase} (h : p ∈ k.phrases) :
    p.template <:+: k.template := by
  cases k with
  | inLiterals left values =>
    simp only [phrases] at h
    simp only [Condition.template]
    split_ifs at h ⊢
    · exact absurd h List.not_mem_nil
    · rw [List.mem_singleton.mp h, List.append_assoc]
      exact (List.suffix_append _ _).isInfix
  | memberOf left set =>
    rw [List.mem_singleton.mp h, Condition.template, set.enclose_template]
    exact (List.suffix_append _ _).isInfix
  | _ => exact absurd h List.not_mem_nil

/-- The phrases of a node are among its pieces. -/
theorem Node.infix_of_mem_phrases {node : Node} {p : Phrase} (h : p ∈ node.phrases)
    (ctx : Context) : p.template <:+: node.template ctx := by
  cases node with
  | condition k => exact Condition.infix_of_mem_phrases h
  | query clauses =>
    obtain ⟨before, after, hsplit⟩ := List.append_of_mem h
    rw [Node.template, Clause.templates_eq_phrases, hsplit]
    exact ⟨before.flatMap Phrase.template, after.flatMap Phrase.template, by simp⟩
  | _ => exact absurd h List.not_mem_nil

/-! ## Nodes that are filled -/

/-- The clauses of a query that was built by steps, at least one. -/
def Query.Built (clauses : List Clause) : Prop :=
  ∃ s ss q, start.steps (s :: ss) = .ok q ∧ q.clauses = clauses

/-- What a node contributes itself is there: its name and its alias have a text, a composite or a
chain has items, and a query was built by steps. -/
def Node.IsFilled : Node → Prop
  | expr (.column c) => c.name ≠ "" ∧ c.alias? ≠ some ""
  | expr (.call f) => f.name ≠ "" ∧ f.alias? ≠ some ""
  | expr (.composite _ items) => items ≠ []
  | expr (.tableRef t) | tableRef t => t.exposedName ≠ ""
  | table t => t.name ≠ "" ∧ t.alias? ≠ some ""
  | condition (.chain _ items) => items ≠ []
  | query clauses => Query.Built clauses
  | expr _ | condition _ | sortKey _ => True

/-- The node is filled, and every node that it contains is. -/
def Node.Filled (ctx : Context) (node : Node) : Prop :=
  ∀ c part, node.Contains ctx c part → part.IsFilled

section

variable {d : Dialect} {ctx c : Context} {node part : Node} {s : String} {t u : Template}
  {p : Phrase}

theorem Node.Contains.trans {e : Context} {inner : Node} (h : node.Contains ctx c part)
    (h' : part.Contains c e inner) : node.Contains ctx e inner := by
  induction h' with
  | self => exact h
  | part _ hq ih => exact .part ih hq

theorem Node.Filled.of_contains (h : node.Filled ctx) (hpart : node.Contains ctx c part) :
    part.Filled c := fun e inner hinner => h e inner (hpart.trans hinner)

/-- **A node is filled when it is filled itself and its parts are.** -/
theorem Node.filled_iff : node.Filled ctx ↔
    node.IsFilled ∧ ∀ p ∈ node.parts ctx, p.2.Filled p.1 := by
  constructor
  · intro h
    exact ⟨h ctx node .self, fun p hp => h.of_contains (.part .self hp)⟩
  · rintro ⟨hself, hparts⟩ e inner h
    have hcases : (e = ctx ∧ inner = node) ∨
        ∃ p ∈ node.parts ctx, p.2.Contains p.1 e inner := by
      induction h with
      | self => exact .inl ⟨rfl, rfl⟩
      | part _ hq ih =>
        rcases ih with ⟨rfl, rfl⟩ | ⟨p, hp, hcontains⟩
        · exact .inr ⟨_, hq, .self⟩
        · exact .inr ⟨p, hp, .part hcontains hq⟩
    rcases hcases with ⟨-, rfl⟩ | ⟨p, hp, hcontains⟩
    · exact hself
    · exact hparts p hp e inner hcontains

theorem Query.Built.ne_nil {clauses : List Clause} (h : Built clauses) : clauses ≠ [] := by
  obtain ⟨s, ss, q, hq, rfl⟩ := h
  obtain ⟨p, hp, -⟩ := steps_cons_eq_ok_iff.mp hq
  obtain ⟨hstage, -, -⟩ := step_eq_ok_iff.mp hp
  rw [clauses_steps (q := start) nofun hq]
  cases s with
  | select | selectAll => simp [Step.clausesOf, Step.clauses]
  | join kind => cases kind <;> contradiction
  | _ => contradiction

/-! ## Templates that are written as some text -/

/-- In every place something is written for the template. -/
def Template.Shows (d : Dialect) (t : Template) : Prop := ∀ params, (t.write d params).1 ≠ ""

namespace Template

theorem Shows.append_left (h : t.Shows d) (u : Template) : (t ++ u).Shows d := by
  intro params hempty
  rw [write_append, String.append_eq_empty_iff] at hempty
  exact h params hempty.1

theorem Shows.append_right (h : u.Shows d) (t : Template) : (t ++ u).Shows d := by
  intro params hempty
  rw [write_append, String.append_eq_empty_iff] at hempty
  exact h _ hempty.2

theorem shows_piece {piece : Piece} (h : ∀ params, (piece.write d params).1 ≠ "")
    (t : Template) : Shows d (piece :: t) := by
  intro params hempty
  rw [write_cons, String.append_eq_empty_iff] at hempty
  exact h params hempty.1

theorem shows_text (h : s ≠ "") (t : Template) : Shows d (.text s :: t) := by
  refine shows_piece ?_ t
  exact fun _ => h

theorem shows_text_after (h : s ≠ "") (t u : Template) : Shows d (t ++ .text s :: u) :=
  (shows_text h u).append_right t

theorem shows_slot (hd : ∀ n, d.placeholder n ≠ "") (b : Binding) (t : Template) :
    Shows d (.slot b :: t) := by
  refine shows_piece ?_ t
  exact fun params => hd (params.bind b).1

theorem shows_joined_cons {separator : String} (h : t.Shows d) (ts : List Template) :
    (joined separator (t :: ts)).Shows d := by
  cases ts with
  | nil => exact h
  | cons u ts => exact h.append_left _

theorem shows_joined {separator : String} {ts : List Template} (hne : ts ≠ [])
    (h : ∀ t ∈ ts, t.Shows d) : (joined separator ts).Shows d := by
  obtain ⟨t, ts, rfl⟩ := List.exists_cons_of_ne_nil hne
  exact shows_joined_cons (h t List.mem_cons_self) ts

end Template

open Template

theorem Column.shows {col : Column} (hname : col.name ≠ "") (halias : col.alias? ≠ some "") :
    Shows d [.column col ctx] := by
  have hqualified : col.qualifiedName ≠ "" := by
    unfold qualifiedName
    cases col.table? <;> simp [hname]
  refine shows_piece (fun _ => ?_) []
  show col.text ctx ≠ ""
  unfold text
  split
  · simp
  · rename_i label hlabel _
    exact fun hempty => halias (hempty ▸ hlabel)
  · exact hqualified

theorem Call.shows {f : Call} (hname : f.name ≠ "") (halias : f.alias? ≠ some "") :
    (f.template ctx).Shows d := by
  rw [Call.template_eq]
  by_cases hwritten : f.alias? = none ∨ ctx.aliasUse ≠ .used
  · obtain ⟨rest, hcalled⟩ := prefix_called f.name f.distinct f.operand hwritten
    rw [← hcalled]
    exact (shows_text hname _).append_left rest
  · obtain ⟨hsome, huse⟩ := not_or.mp hwritten
    obtain ⟨label, hlabel⟩ := Option.ne_none_iff_exists'.mp hsome
    simp only [called, hlabel, not_not.mp huse]
    exact (shows_text (fun hempty => halias (hempty ▸ hlabel)) []).append_right _

theorem Table.shows {tab : Table} (h : tab.name ≠ "") : tab.template.Shows d := by
  obtain ⟨name, alias?, source⟩ := tab
  simp only [Table.template]
  refine Shows.append_left ?_ _
  cases source with
  | base => exact shows_text h []
  | derived query => exact shows_text (by decide) _

/-- An expression that is filled is written as some text. Only a composite is written by its items
alone, so only there the argument goes on to a part. -/
theorem Expr.shows (hd : ∀ n, d.placeholder n ≠ "") (ctx : Context) :
    ∀ e : Expr, (Node.expr e).Filled ctx → (e.template ctx).Shows d
  | .column col, h => Column.shows (Node.filled_iff.mp h).1.1 (Node.filled_iff.mp h).1.2
  | .param v, _ => shows_slot hd (.literal v) []
  | .array id v, _ => shows_slot hd (.node id v) []
  | .call f, h => f.shows (Node.filled_iff.mp h).1.1 (Node.filled_iff.mp h).1.2
  | .composite separator [], h => absurd rfl (Node.filled_iff.mp h).1
  | .composite separator (item :: items), h =>
    shows_joined_cons (item.shows hd ctx ((Node.filled_iff.mp h).2 _ List.mem_cons_self)) _
  | .subquery query, _ => shows_text (by decide) _
  | .table t, h => Table.shows (h _ _ (.part .self (List.mem_singleton_self _))).1
  | .tableRef t, h => shows_text (Node.filled_iff.mp h).1 []

/-- A condition that is filled is written as some text: most have an operator in it. -/
theorem Condition.shows :
    ∀ k : Condition, (Node.condition k).Filled .reference → k.template.Shows d
  | .compare left op right, _ => by
    simp only [Condition.template]
    exact shows_text_after (by simp) _ _
  | .compareLiteral left op v, _ => by
    simp only [Condition.template]
    exact shows_text_after (by simp) _ _
  | .inLiterals left vs, _ => by
    simp only [Condition.template]
    split
    · exact shows_text (by decide) []
    · rw [List.append_assoc]
      exact shows_text_after (by decide) _ _
  | .memberOf left set, _ => by
    simp only [Condition.template]
    exact shows_text_after (by decide) _ _
  | .compareSet left op quantifier set, _ => by
    simp only [Condition.template]
    exact shows_text_after (by simp) _ _
  | .isNull operand negated, _ => by
    simp only [Condition.template]
    exact shows_text_after (by cases negated <;> decide) _ _
  | .existsRows query, _ => shows_text (by decide) _
  | .chain connective [], h => absurd rfl (Node.filled_iff.mp h).1
  | .chain connective (item :: items), h =>
    shows_joined_cons (item.shows ((Node.filled_iff.mp h).2 _ List.mem_cons_self)) _
  | .grouped inner, _ => shows_text (by decide) _

theorem SortKey.shows (k : SortKey) : k.template.Shows d := by
  obtain ⟨e, direction⟩ := k
  exact shows_text_after (by simp) _ _

/-- A query that was built is written as some text, its first keyword. -/
theorem Query.Built.shows {clauses : List Clause} (h : Built clauses) :
    (Clause.templates clauses).Shows d := by
  obtain ⟨k, ks, rfl⟩ := List.exists_cons_of_ne_nil h.ne_nil
  rw [Clause.templates]
  refine Shows.append_left ?_ _
  cases k with
  | select distinct => exact shows_text (by cases distinct <;> decide) _
  | join kind target on? => cases on? <;> exact shows_text (by simp) _
  | _ => exact shows_text (by decide) _

theorem shows_toString (n : Nat) : Shows d [.text (toString n)] := by
  refine shows_text ?_ []
  rw [Nat.toString_eq_ofList_toDigits]
  exact fun hempty => Nat.toDigits_ne_nil (String.ofList_eq_empty_iff.mp hempty)

/-! ## Phrases of nodes that are filled -/

theorem Expr.shows_joined (hd : ∀ n, d.placeholder n ≠ "") {items : List Expr} (hne : items ≠ [])
    (h : ∀ p ∈ items.map (Expr.part ctx), p.2.Filled p.1) :
    (joined ", " (Expr.templates ctx items)).Shows d := by
  rw [Expr.templates_eq_map]
  refine Template.shows_joined (by simpa using hne) (List.forall_mem_map.mpr fun item hitem => ?_)
  exact item.shows hd ctx (List.forall_mem_map.mp h item hitem)

/-- A phrase of a clause has a body, apart from lists to group or sort by that are empty. -/
theorem Clause.shows_body (hd : ∀ n, d.placeholder n ≠ "") {k : Clause}
    (hparts : ∀ p ∈ k.parts, p.2.Filled p.1) (hgroup : k ≠ .groupBy []) (horder : k ≠ .orderBy [])
    (h : p ∈ k.phrases) : p.body.Shows d := by
  cases k with
  | select distinct items =>
    obtain rfl := List.mem_singleton.mp h
    cases items with
    | nil => exact shows_text (by decide) []
    | cons item items => exact Expr.shows_joined hd (List.cons_ne_nil _ _) hparts
  | fromTable tab =>
    obtain rfl := List.mem_singleton.mp h
    exact Table.shows (hparts _ (List.mem_singleton_self _) _ _ .self).1
  | join kind target on? =>
    have htarget : target.template.Shows d :=
      Table.shows (hparts target.part (by cases on? <;> simp [parts]) _ _ .self).1
    cases on? with
    | none =>
      obtain rfl := List.mem_singleton.mp h
      exact htarget
    | some k =>
      rcases List.mem_pair.mp h with rfl | rfl
      · exact htarget
      · exact k.shows (hparts k.part (by simp [parts]))
  | filter k | having k =>
    obtain rfl := List.mem_singleton.mp h
    exact k.shows (hparts _ (List.mem_singleton_self _))
  | groupBy items =>
    obtain rfl := List.mem_singleton.mp h
    exact Expr.shows_joined hd (fun hnil => hgroup (hnil ▸ rfl)) hparts
  | orderBy keys =>
    obtain rfl := List.mem_singleton.mp h
    rw [SortKey.templates_eq_map]
    refine Template.shows_joined ?_ (List.forall_mem_map.mpr fun key _ => key.shows)
    exact fun hnil => horder (List.map_eq_nil_iff.mp hnil ▸ rfl)
  | limit count | offset count =>
    obtain rfl := List.mem_singleton.mp h
    exact shows_toString count

theorem Subquery.shows_body {q : Subquery} (h : q.part.2.Filled q.part.1) : q.body.Shows d := by
  obtain ⟨id, clauses⟩ := q
  rw [Subquery.body]
  exact ((Node.filled_iff.mp h).1.shows.append_left [.leave]).append_right [.enter]

/-- The parentheses after `IN` have something in them. -/
theorem Condition.shows_body (hd : ∀ n, d.placeholder n ≠ "") {k : Condition}
    (hparts : ∀ p ∈ k.parts, p.2.Filled p.1) (h : p ∈ k.phrases) : p.body.Shows d := by
  cases k with
  | inLiterals left vs =>
    cases vs with
    | nil => exact absurd h List.not_mem_nil
    | cons v vs =>
      obtain rfl := List.mem_singleton.mp h
      exact shows_joined_cons (shows_slot hd (.literal v) []) _
  | memberOf left set =>
    obtain rfl := List.mem_singleton.mp h
    have hset : (Node.expr set).Filled .reference := hparts (set.part .reference) (by simp [parts])
    cases set with
    | subquery q => exact q.shows_body ((Node.filled_iff.mp hset).2 _ (List.mem_singleton_self _))
    | _ => exact Expr.shows hd _ _ hset
  | _ => exact absurd h List.not_mem_nil

/-- The phrases without a body: those of `GROUP BY` and `ORDER BY` without items. -/
def Phrase.IsBare (p : Phrase) : Prop :=
  p ∈ (Clause.groupBy []).phrases ∨ p ∈ (Clause.orderBy []).phrases

/-- **A phrase of a node that is filled** has a body, or the node is a query that groups or sorts by
an empty list. -/
theorem Node.Filled.shows_body_or_bare (hfilled : node.Filled ctx)
    (hd : ∀ n, d.placeholder n ≠ "") (h : p ∈ node.phrases) : p.body.Shows d ∨ p.IsBare ∧
      ∃ clauses, node = .query clauses ∧ (.groupBy [] ∈ clauses ∨ .orderBy [] ∈ clauses) := by
  have hparts := (Node.filled_iff.mp hfilled).2
  cases node with
  | condition k => exact .inl (Condition.shows_body hd hparts h)
  | query clauses =>
    obtain ⟨k, hk, hphrase⟩ := List.mem_flatMap.mp h
    by_cases hgroup : k = .groupBy []
    · subst hgroup
      exact .inr ⟨.inl hphrase, clauses, rfl, .inl hk⟩
    by_cases horder : k = .orderBy []
    · subst horder
      exact .inr ⟨.inr hphrase, clauses, rfl, .inr hk⟩
    refine .inl (Clause.shows_body hd (fun p hp => hparts p ?_) hgroup horder hphrase)
    exact List.mem_flatMap.mpr ⟨k, hk, hp⟩
  | _ => exact absurd h List.not_mem_nil

theorem Phrase.IsBare.body_eq_nil (h : p.IsBare) : p.body = [] := by
  rcases h with h | h <;> rw [List.mem_singleton.mp h] <;> rfl

/-! ## Phrases of a statement -/

/-- A phrase of a part, at any depth, has a place in the whole. -/
theorem Node.Contains.exists_standsIn (hpart : node.Contains ctx c part) (hp : p ∈ part.phrases) :
    ∃ before, p.StandsIn (node.template ctx) before := by
  obtain ⟨before, after, hsplit⟩ := hpart.exists_place
  obtain ⟨u, v, hphrase⟩ := Node.infix_of_mem_phrases hp c
  refine ⟨before ++ u, v ++ after, hsplit.trans ?_⟩
  rw [← hphrase]
  simp only [List.append_assoc]

/-- Where a phrase stands in a statement, its body is written after its keyword. -/
theorem Phrase.sql_of_standsIn {q : Query} {before : Template}
    (h : p.StandsIn (Clause.templates q.clauses) before) :
    ∃ rest, (q.statement d).sql =
      ((Session.start d).fill (before ++ p.opening)).1 ++ p.bodyText d before ++ rest := by
  obtain ⟨after, hsplit⟩ := h
  have hpieces : Clause.templates q.clauses =
      before ++ p.opening ++ (p.body ++ (p.closing ++ after)) := by
    rw [hsplit, Phrase.template]
    simp only [List.append_assoc]
  refine ⟨((((Session.start d).fill (before ++ p.opening)).2.fill p.body).2.fill
    (p.closing ++ after)).1, ?_⟩
  show (q.write d).1 = _
  rw [Query.write_eq_fill, hpieces, Session.fill_append _ (before ++ p.opening),
    Session.fill_append _ p.body, String.append_assoc]
  rfl

theorem Template.Shows.bodyText_ne (h : p.body.Shows d) (before : Template) :
    p.bodyText d before ≠ "" := h _

theorem Phrase.IsBare.bodyText_eq (h : p.IsBare) (before : Template) :
    p.bodyText d before = "" := by
  rw [Phrase.bodyText, h.body_eq_nil]
  rfl

end

namespace Query

/-- **Which keywords of a query are written with nothing after them.**

Take a query built by steps, whose parts are all filled, in a dialect whose placeholders have a
text. Queries, nested ones too, are their phrases, one after the other. Every phrase in it, at any
depth, has a place in the text, where its body follows its keyword. The body is empty exactly for
`GROUP BY` and `ORDER BY` without items. So every keyword has a body exactly when no query in it
groups or sorts by an empty list. -/
theorem phrases_filled_iff {s : Step} {ss : List Step} {q : Query} {d : Dialect}
    (h : start.steps (s :: ss) = .ok q) (hd : ∀ n, d.placeholder n ≠ "")
    (hparts : ∀ p ∈ (Node.query q.clauses).parts .output, p.2.Filled p.1) :
    (∀ clauses, Clause.templates clauses =
      (Node.query clauses).phrases.flatMap Phrase.template) ∧
    (∀ c part, (Node.query q.clauses).Contains .output c part → ∀ p ∈ part.phrases,
      (∃ before, p.StandsIn (Clause.templates q.clauses) before) ∧
      ∀ before, p.StandsIn (Clause.templates q.clauses) before →
        (p.bodyText d before = "" ↔ p.IsBare) ∧
        ∃ rest, (q.statement d).sql =
          ((Session.start d).fill (before ++ p.opening)).1 ++ p.bodyText d before ++ rest) ∧
    ((∀ c part, (Node.query q.clauses).Contains .output c part → ∀ p ∈ part.phrases,
        ∀ before, p.StandsIn (Clause.templates q.clauses) before → p.bodyText d before ≠ "") ↔
      ∀ c clauses, (Node.query q.clauses).Contains .output c (.query clauses) →
        .groupBy [] ∉ clauses ∧ .orderBy [] ∉ clauses) := by
  have hfilled : (Node.query q.clauses).Filled .output :=
    Node.filled_iff.mpr ⟨⟨s, ss, q, h, rfl⟩, hparts⟩
  refine ⟨Clause.templates_eq_phrases, fun c part hpart p hp => ?_, ?_, ?_⟩
  · refine ⟨hpart.exists_standsIn hp, fun before hbefore => ⟨⟨fun hempty => ?_, ?_⟩, ?_⟩⟩
    · rcases (hfilled.of_contains hpart).shows_body_or_bare hd hp with hshows | ⟨hbare, -⟩
      · exact absurd hempty (hshows.bodyText_ne before)
      · exact hbare
    · exact fun hbare => hbare.bodyText_eq before
    · exact Phrase.sql_of_standsIn hbefore
  · intro hall c clauses hcontains
    have hfalse {p : Phrase} (hp : p ∈ (Node.query clauses).phrases) (hbare : p.IsBare) :
        False := by
      obtain ⟨before, hbefore⟩ := hcontains.exists_standsIn hp
      exact hall c _ hcontains p hp before hbefore (hbare.bodyText_eq before)
    constructor
    · intro hk
      exact hfalse (List.mem_flatMap.mpr ⟨_, hk, List.mem_singleton_self _⟩)
        (.inl (List.mem_singleton_self _))
    · intro hk
      exact hfalse (List.mem_flatMap.mpr ⟨_, hk, List.mem_singleton_self _⟩)
        (.inr (List.mem_singleton_self _))
  · intro hnone c part hpart p hp before _
    rcases (hfilled.of_contains hpart).shows_body_or_bare hd hp with
      hshows | ⟨-, clauses, rfl, hclause⟩
    · exact hshows.bodyText_ne before
    · obtain ⟨hgroup, horder⟩ := hnone c clauses hpart
      exact (hclause.elim hgroup horder).elim

/-- **A query that groups and sorts by empty lists** is written with two keywords that have nothing
after them, though its only name has a text. -/
theorem group_by_nothing :
    let steps : List Step := [.selectAll false, .fromTable (.ofName "t"), .groupBy [], .orderBy []]
    ∃ q, start.steps steps = .ok q ∧ (∀ n, Dialect.postgres.placeholder n ≠ "") ∧
      (∀ p ∈ (Node.query q.clauses).parts .output, p.2.Filled p.1) ∧
      q.statement .postgres = ⟨"SELECT * FROM t GROUP BY  ORDER BY ", []⟩ ∧
      ¬ ∀ c part, (Node.query q.clauses).Contains .output c part → ∀ p ∈ part.phrases,
        ∀ before, p.StandsIn (Clause.templates q.clauses) before →
          p.bodyText .postgres before ≠ "" := by
  intro steps
  let q : Query :=
    ⟨.orderBy, [.select false [], .fromTable (.ofName "t"), .groupBy [], .orderBy []]⟩
  have htable : (Node.table (.ofName "t")).Filled .definition :=
    Node.filled_iff.mpr ⟨⟨by decide, nofun⟩, nofun⟩
  refine ⟨q, rfl, fun n => by simp [Dialect.postgres], List.forall_mem_singleton.mpr htable,
    rfl, fun hall => ?_⟩
  let group : Phrase := ⟨[.text " GROUP BY "], [], []⟩
  have hgroup : group ∈ (Node.query q.clauses).phrases := by
    simp [group, q, Node.phrases, Clause.phrases, Expr.templates, Template.joined]
  exact hall .output _ .self group hgroup
    [.text "SELECT ", .text "*", .text " FROM ", .text "t"] ⟨[.text " ORDER BY "], rfl⟩ rfl

/-- A query that groups by an empty list, with a nested query after `IN`: only the first keyword is
without a body. -/
theorem phrases_filled_iff_nested :
    let nested : Subquery := ⟨1, [.select false [], .fromTable (.ofName "u")]⟩
    let test : Condition := .memberOf (.verbatim "x") (.subquery nested)
    let member : Phrase := ⟨[.text " IN ", .text "("], nested.body, [.text ")"]⟩
    let before : Template := [.text "SELECT ", .text "*", .text " FROM ", .text "t",
      .text " WHERE ", .column (.verbatim "x") .reference]
    ∃ q, start.steps [.selectAll false, .fromTable (.ofName "t"), .filter test, .groupBy []] =
        .ok q ∧
      member.StandsIn (Clause.templates q.clauses) before ∧
      member.bodyText .postgres before ≠ "" ∧
      ¬ ∀ c part, (Node.query q.clauses).Contains .output c part → ∀ p ∈ part.phrases,
        ∀ before, p.StandsIn (Clause.templates q.clauses) before →
          p.bodyText .postgres before ≠ "" := by
  intro nested test member before
  let q : Query := ⟨.groupBy, [.select false [], .fromTable (.ofName "t"), .filter test,
    .groupBy []]⟩
  have hq : start.steps [.selectAll false, .fromTable (.ofName "t"), .filter test, .groupBy []] =
      .ok q := rfl
  have htable {name : String} (hname : name ≠ "") :
      (Node.table (.ofName name)).Filled .definition :=
    Node.filled_iff.mpr ⟨⟨hname, nofun⟩, nofun⟩
  have hbuilt : Built nested.clauses :=
    ⟨.selectAll false, [.fromTable (.ofName "u")], ⟨.fromTable, nested.clauses⟩, rfl, rfl⟩
  have hnested : (Node.query nested.clauses).Filled .output :=
    Node.filled_iff.mpr ⟨hbuilt, List.forall_mem_singleton.mpr (htable (by decide))⟩
  have hcolumn : (Node.expr (.verbatim "x")).Filled .reference :=
    Node.filled_iff.mpr ⟨⟨by decide, nofun⟩, nofun⟩
  have hset : (Node.expr (.subquery nested)).Filled .reference :=
    Node.filled_iff.mpr ⟨trivial, List.forall_mem_singleton.mpr hnested⟩
  have htested : (Node.condition test).Filled .reference := Node.filled_iff.mpr
    ⟨trivial, List.forall_mem_cons.mpr ⟨hcolumn, List.forall_mem_singleton.mpr hset⟩⟩
  have hparts : ∀ p ∈ (Node.query q.clauses).parts .output, p.2.Filled p.1 :=
    List.forall_mem_cons.mpr ⟨htable (by decide), List.forall_mem_singleton.mpr htested⟩
  have hplaceholder : ∀ n, Dialect.postgres.placeholder n ≠ "" := by
    intro n
    simp [Dialect.postgres]
  obtain ⟨-, hphrases, hall⟩ := phrases_filled_iff hq hplaceholder hparts
  have htest : (Node.query q.clauses).Contains .output .reference (.condition test) :=
    .part .self (by simp [q, Node.parts, Clause.parts, Condition.part])
  have hmember : member.StandsIn (Clause.templates q.clauses) before :=
    ⟨[.text " GROUP BY "], rfl⟩
  refine ⟨q, hq, hmember, fun hempty => ?_, fun hevery => ?_⟩
  · have hbare := ((hphrases _ _ htest member (List.mem_singleton_self _)).2 before hmember).1.mp
      hempty
    simp [Phrase.IsBare, member, Clause.phrases] at hbare
  · exact (hall.mp hevery .output q.clauses .self).1 (by simp [q])

end Query

end SqlBuilder
