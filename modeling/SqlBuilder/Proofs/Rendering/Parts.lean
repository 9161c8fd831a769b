import SqlBuilder.Proofs.Rendering.Trace

/-!
# Parts of a node

`Node.parts` lists the nodes that stand directly in a node and are written with it, each with the
context it is written in. `Node.Contains` goes on to the parts of parts, into nested queries too.
What is not written is not a part, such as the argument of a call that an alias stands for. The
pieces of a part stand together among the pieces of the whole (`Contains.exists_place`), so it makes
sense to ask what is written for the part at its place.
-/

namespace SqlBuilder

/-! ## Parts -/

/-- The rows of a nested query are written by its clauses. -/
def Subquery.part (q : Subquery) : Context × Node := (.output, .query q.clauses)

def Expr.part (ctx : Context) (e : Expr) : Context × Node := (ctx, .expr e)

def Condition.part (c : Condition) : Context × Node := (.reference, .condition c)

def Table.part (t : Table) : Context × Node := (.definition, .table t)

def Table.parts (t : Table) : List (Context × Node) :=
  match t.source with
  | .base => []
  | .derived query => [query.part]

/-- The argument of a call, or the clauses of the nested query that it is without parentheses. -/
def Call.argPart (f : Call) : Context × Node :=
  match f.bare, f.arg with
  | true, .subquery query => query.part
  | _, arg => arg.part .reference

/-- Where an alias stands for a call nothing of the call is written. -/
def Call.parts (ctx : Context) (f : Call) : List (Context × Node) :=
  match f.alias?, ctx.aliasUse with
  | some _, .used => []
  | _, _ => [f.argPart]

def Expr.parts (ctx : Context) : Expr → List (Context × Node)
  | .call f => f.parts ctx
  | .composite _ items => items.map (Expr.part ctx)
  | .subquery query => [query.part]
  | .table t => [t.part]
  | .column _ | .param _ | .array _ _ | .tableRef _ => []

/-- The left side of a test against an empty list is not written. -/
def Condition.parts : Condition → List (Context × Node)
  | .compare left _ right => [left.part .reference, right.part .reference]
  | .compareLiteral left _ _ => [left.part .reference]
  | .inLiterals left values => if values.isEmpty then [] else [left.part .reference]
  | .memberOf left set => [left.part .reference, set.part .reference]
  | .compareSet left _ _ set => [left.part .reference, set.part .reference]
  | .isNull operand _ => [operand.part .reference]
  | .existsRows query => [query.part]
  | .chain _ items => items.map Condition.part
  | .grouped inner => [inner.part]

def Clause.parts : Clause → List (Context × Node)
  | .select _ items => items.map (Expr.part .definition)
  | .fromTable table => [table.part]
  | .join _ target none => [target.part]
  | .join _ target (some condition) => [target.part, condition.part]
  | .filter condition => [condition.part]
  | .groupBy items => items.map (Expr.part .reference)
  | .having condition => [condition.part]
  | .orderBy keys => keys.map fun key => (.orderBy, .sortKey key)
  | .limit _ | .offset _ => []

/-- The nodes that stand directly in a node and are written with it, and their contexts. -/
def Node.parts (ctx : Context) : Node → List (Context × Node)
  | expr e => e.parts ctx
  | condition c => c.parts
  | sortKey k => [k.expr.part .orderBy]
  | table t => t.parts
  | tableRef _ => []
  | query clauses => clauses.flatMap Clause.parts

/-- A node stands in another one, at any depth, and is written in a context. -/
inductive Node.Contains (node : Node) (ctx : Context) : Context → Node → Prop
  | self : Contains node ctx ctx node
  | part {c d : Context} {p q : Node} (hp : Contains node ctx c p) (hq : (d, q) ∈ p.parts c) :
      Contains node ctx d q

/-- The pieces of `part`, written in the context `c`, stand among those of the node, after the
pieces `before`. -/
def Node.HasAt (node : Node) (ctx c : Context) (part : Node) (before : Template) : Prop :=
  ∃ after, node.template ctx = before ++ part.template c ++ after

/-! ## Places of parts -/

variable {ctx c : Context} {node part : Node}

theorem Template.infix_after {t t' : Template} (u : Template) (piece : Piece) (h : t <:+: t') :
    t <:+: u ++ piece :: t' :=
  h.trans ((List.suffix_cons piece t').trans (List.suffix_append u _)).isInfix

theorem Template.infix_joined {t : Template} {separator : String} :
    ∀ {ts : List Template}, t ∈ ts → t <:+: joined separator ts
  | [u], h => by
    rw [List.mem_singleton.mp h]
    exact List.infix_rfl
  | u :: v :: ts, h => by
    rcases List.mem_cons.mp h with rfl | h
    · exact (List.prefix_append _ _).isInfix
    · exact Template.infix_after u _ (Template.infix_joined h)

/-- What holds of templates holds of them joined, if it holds of none and of two with the separator
between them. -/
theorem Template.joined_induction {P : Template → Prop} {separator : String} (hnil : P [])
    (hpair : ∀ {t u : Template}, P t → P u → P (t ++ .text separator :: u)) :
    ∀ {ts : List Template}, (∀ t ∈ ts, P t) → P (joined separator ts)
  | [], _ => hnil
  | [t], h => h t List.mem_cons_self
  | t :: u :: ts, h => by
    obtain ⟨ht, hts⟩ := List.forall_mem_cons.mp h
    exact hpair ht (Template.joined_induction hnil hpair hts)

theorem Expr.templates_eq_map (ctx : Context) (es : List Expr) :
    Expr.templates ctx es = es.map (Expr.template ctx) := by
  induction es with
  | nil => rfl
  | cons e es ih => rw [Expr.templates, ih, List.map_cons]

theorem Condition.templates_eq_map (cs : List Condition) :
    Condition.templates cs = cs.map Condition.template := by
  induction cs with
  | nil => rfl
  | cons c cs ih => rw [Condition.templates, ih, List.map_cons]

theorem SortKey.templates_eq_map (ks : List SortKey) :
    SortKey.templates ks = ks.map SortKey.template := by
  induction ks with
  | nil => rfl
  | cons k ks ih => rw [SortKey.templates, ih, List.map_cons]

theorem Clause.infix_templates {k : Clause} :
    ∀ {ks : List Clause}, k ∈ ks → k.template <:+: Clause.templates ks
  | u :: ks, h => by
    rw [Clause.templates]
    rcases List.mem_cons.mp h with rfl | h
    · exact (List.prefix_append _ _).isInfix
    · exact (Clause.infix_templates h).trans (List.suffix_append _ _).isInfix

theorem Subquery.infix_body (q : Subquery) :
    (Node.query q.clauses).template c <:+: q.body := by
  obtain ⟨id, clauses⟩ := q
  exact ⟨[.enter], [.leave], rfl⟩

/-- A call is written with its argument in parentheses, unless the alias stands for it. -/
theorem Template.prefix_called (name : String) (distinct : Bool) {alias? : Option String}
    (operand : Template) (h : alias? = none ∨ ctx.aliasUse ≠ .used) :
    .text name :: .text (if distinct then "(DISTINCT " else "(") :: operand ++ [.text ")"] <+:
      called ctx name distinct alias? operand := by
  cases alias? with
  | none => exact List.prefix_rfl
  | some label =>
    have hnotUsed := h.resolve_left (Option.some_ne_none label)
    cases huse : ctx.aliasUse with
    | introduced =>
      simp only [called, huse]
      exact List.prefix_append _ _
    | used => exact absurd huse hnotUsed
    | ignored =>
      simp only [called, huse]
      exact List.prefix_rfl

theorem Template.infix_called (name : String) (distinct : Bool) {alias? : Option String}
    (operand : Template) (h : alias? = none ∨ ctx.aliasUse ≠ .used) :
    operand <:+: called ctx name distinct alias? operand := by
  have hwritten : operand <:+:
      .text name :: .text (if distinct then "(DISTINCT " else "(") :: operand ++ [.text ")"] :=
    ⟨[.text name, .text (if distinct then "(DISTINCT " else "(")], [.text ")"], rfl⟩
  exact hwritten.trans (prefix_called name distinct operand h).isInfix

theorem Expr.infix_enclose (set : Expr) (t : Template) : t <:+: set.enclose t := by
  unfold enclose
  split
  · exact List.infix_rfl
  · exact ⟨[.text "("], [.text ")"], rfl⟩

theorem Table.infix_of_mem_parts {t : Table} (h : (c, part) ∈ t.parts) :
    part.template c <:+: t.template := by
  obtain ⟨name, alias?, source⟩ := t
  cases source with
  | base => exact absurd h List.not_mem_nil
  | derived query =>
    cases List.mem_singleton.mp h
    have hsource : query.body <:+: (Source.derived query).template name := by
      simp only [Source.template]
      exact ⟨[.text "("], [.text ")"], rfl⟩
    simp only [Table.template]
    exact (query.infix_body.trans hsource).trans (List.prefix_append _ _).isInfix

theorem Call.infix_operand (f : Call) :
    f.argPart.2.template f.argPart.1 <:+: f.operand := by
  obtain ⟨name, arg, distinct, bare, alias?⟩ := f
  cases bare with
  | false => exact List.infix_rfl
  | true =>
    cases arg with
    | subquery query => exact query.infix_body
    | _ => exact List.infix_rfl

/-- A part of a call is its argument, and no alias stands for the call. -/
theorem Call.argPart_of_mem_parts {f : Call} (h : (c, part) ∈ f.parts ctx) :
    (f.alias? = none ∨ ctx.aliasUse ≠ .used) ∧ (c, part) = f.argPart := by
  unfold parts at h
  split at h
  · exact absurd h List.not_mem_nil
  · rename_i hnot
    refine ⟨?_, List.mem_singleton.mp h⟩
    cases halias : f.alias? with
    | none => exact .inl rfl
    | some label => exact .inr fun huse => hnot label halias huse

theorem Call.infix_of_mem_parts {f : Call} (h : (c, part) ∈ f.parts ctx) :
    part.template c <:+: f.template ctx := by
  obtain ⟨hwritten, hpart⟩ := f.argPart_of_mem_parts h
  have hoperand := f.infix_operand
  rw [← hpart] at hoperand
  rw [Call.template_eq]
  exact hoperand.trans (Template.infix_called f.name f.distinct f.operand hwritten)

theorem Expr.infix_of_mem_parts {e : Expr} (h : (c, part) ∈ e.parts ctx) :
    part.template c <:+: e.template ctx := by
  cases e with
  | column | param | array | tableRef => exact absurd h List.not_mem_nil
  | call f => exact Call.infix_of_mem_parts h
  | composite separator items =>
    obtain ⟨item, hitem, hpart⟩ := List.mem_map.mp h
    cases hpart
    simp only [Expr.template, Expr.templates_eq_map]
    exact Template.infix_joined (List.mem_map_of_mem hitem)
  | subquery query =>
    cases List.mem_singleton.mp h
    refine query.infix_body.trans ?_
    simp only [Expr.template]
    exact ⟨[.text "("], [.text ")"], rfl⟩
  | table t =>
    cases List.mem_singleton.mp h
    simp only [Expr.template]
    exact List.infix_rfl

theorem Condition.infix_of_mem_parts {k : Condition} (h : (c, part) ∈ k.parts) :
    part.template c <:+: k.template := by
  cases k with
  | compare left op right =>
    simp only [Condition.template]
    rcases List.mem_pair.mp h with h | h
    · cases h
      exact (List.prefix_append _ _).isInfix
    · cases h
      exact Template.infix_after _ _ List.infix_rfl
  | compareLiteral left op value =>
    cases List.mem_singleton.mp h
    simp only [Condition.template]
    exact (List.prefix_append _ _).isInfix
  | inLiterals left values =>
    simp only [Condition.parts] at h
    simp only [Condition.template]
    split_ifs at h ⊢
    · exact absurd h List.not_mem_nil
    · cases List.mem_singleton.mp h
      rw [List.append_assoc]
      exact (List.prefix_append _ _).isInfix
  | memberOf left set =>
    simp only [Condition.template]
    rcases List.mem_pair.mp h with h | h
    · cases h
      exact (List.prefix_append _ _).isInfix
    · cases h
      exact Template.infix_after _ _ (set.infix_enclose _)
  | compareSet left op quantifier set =>
    simp only [Condition.template]
    rcases List.mem_pair.mp h with h | h
    · cases h
      exact (List.prefix_append _ _).isInfix
    · cases h
      exact Template.infix_after _ _ (set.infix_enclose _)
  | isNull operand negated =>
    cases List.mem_singleton.mp h
    simp only [Condition.template]
    exact (List.prefix_append _ _).isInfix
  | existsRows query =>
    cases List.mem_singleton.mp h
    simp only [Condition.template]
    exact query.infix_body.trans ⟨[.text "EXISTS", .text "("], [.text ")"], rfl⟩
  | chain connective items =>
    obtain ⟨item, hitem, hpart⟩ := List.mem_map.mp h
    cases hpart
    simp only [Condition.template, Condition.templates_eq_map]
    exact Template.infix_joined (List.mem_map_of_mem hitem)
  | grouped inner =>
    cases List.mem_singleton.mp h
    simp only [Condition.template]
    exact ⟨[.text "("], [.text ")"], rfl⟩

theorem Clause.infix_of_mem_parts {k : Clause} (h : (c, part) ∈ k.parts) :
    part.template c <:+: k.template := by
  cases k with
  | select distinct items =>
    obtain ⟨item, hitem, hpart⟩ := List.mem_map.mp h
    cases hpart
    have hitems : items.isEmpty = false := List.isEmpty_eq_false_iff.mpr (List.ne_nil_of_mem hitem)
    simp only [Clause.template, Expr.templates_eq_map, hitems, Bool.false_eq_true, if_false]
    exact Template.infix_after [] _ (Template.infix_joined (List.mem_map_of_mem hitem))
  | fromTable t =>
    cases List.mem_singleton.mp h
    simp only [Clause.template]
    exact Template.infix_after [] _ List.infix_rfl
  | join kind target on? =>
    cases on? with
    | none =>
      cases List.mem_singleton.mp h
      simp only [Clause.template]
      exact Template.infix_after [] _ (List.prefix_append _ _).isInfix
    | some condition =>
      simp only [Clause.template]
      rcases List.mem_pair.mp h with h | h
      · cases h
        exact Template.infix_after [] _ (List.prefix_append _ _).isInfix
      · cases h
        exact Template.infix_after [] _ (Template.infix_after _ _ List.infix_rfl)
  | filter condition | having condition =>
    cases List.mem_singleton.mp h
    simp only [Clause.template]
    exact Template.infix_after [] _ List.infix_rfl
  | groupBy items =>
    obtain ⟨item, hitem, hpart⟩ := List.mem_map.mp h
    cases hpart
    simp only [Clause.template, Expr.templates_eq_map]
    exact Template.infix_after [] _ (Template.infix_joined (List.mem_map_of_mem hitem))
  | orderBy keys =>
    obtain ⟨key, hkey, hpart⟩ := List.mem_map.mp h
    cases hpart
    simp only [Clause.template, SortKey.templates_eq_map]
    exact Template.infix_after [] _ (Template.infix_joined (List.mem_map_of_mem hkey))
  | limit | offset => exact absurd h List.not_mem_nil

/-- **The pieces of a part stand together in the node.** -/
theorem Node.infix_of_mem_parts (h : (c, part) ∈ node.parts ctx) :
    part.template c <:+: node.template ctx := by
  cases node with
  | expr e => exact Expr.infix_of_mem_parts h
  | condition k => exact Condition.infix_of_mem_parts h
  | sortKey k =>
    obtain ⟨e, direction⟩ := k
    cases List.mem_singleton.mp h
    simp only [Node.template, SortKey.template]
    exact (List.prefix_append _ _).isInfix
  | table t => exact Table.infix_of_mem_parts h
  | tableRef t => exact absurd h List.not_mem_nil
  | query clauses =>
    obtain ⟨clause, hclause, hpart⟩ := List.mem_flatMap.mp h
    exact (Clause.infix_of_mem_parts hpart).trans (Clause.infix_templates hclause)

/-- **A part at any depth has a place in the node.** -/
theorem Node.Contains.exists_place (h : node.Contains ctx c part) :
    ∃ before, node.HasAt ctx c part before := by
  have hinfix : part.template c <:+: node.template ctx := by
    induction h with
    | self => exact List.infix_rfl
    | part _ hq ih => exact (Node.infix_of_mem_parts hq).trans ih
  obtain ⟨before, after, heq⟩ := hinfix
  exact ⟨before, after, heq.symm⟩

end SqlBuilder
