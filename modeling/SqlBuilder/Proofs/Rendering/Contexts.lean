import SqlBuilder.Call
import SqlBuilder.Proofs.Rendering.Aliases

/-!
# What a context decides

A context decides what becomes of an alias, and nothing else. Only columns, calls and composites
look at it (`Node.IgnoresContext`), and a composite only passes it on. So the contexts can only
disagree over the aliases that an expression has itself or through composites (`Expr.showsAlias`),
and two contexts that treat aliases alike never disagree (`spelled_template_congr`). Where an alias
stands for a call, the argument is bound all the same: the parameters are those of every context
(`bindings_visits_congr`). The converse holds too. An alias makes the definition of an expression
longer than a reference to it (`width_reference_lt`). `write_contexts` states all of this.
-/

namespace SqlBuilder

mutual

/-- A column or a call has an alias, the expression itself or one that it reaches through composites
alone. -/
def Expr.showsAlias : Expr → Bool
  | .column c => c.alias?.isSome
  | .call f => f.alias?.isSome
  | .composite _ items => Expr.anyShowsAlias items
  | .param _ | .array _ _ | .subquery _ | .table _ | .tableRef _ => false

def Expr.anyShowsAlias : List Expr → Bool
  | [] => false
  | item :: items => item.showsAlias || Expr.anyShowsAlias items

end

/-- The node does not look at its context. -/
def Node.IgnoresContext : Node → Prop
  | expr (.column _) | expr (.call _) | expr (.composite _ _) => False
  | _ => True

variable {c c' : Context}

theorem Node.IgnoresContext.template_eq {node : Node} (h : node.IgnoresContext) :
    node.template c = node.template c' := by
  cases node with
  | expr e =>
    cases e with
    | column | call | composite => exact absurd h id
    | param | array | subquery | table | tableRef => simp only [Node.template, Expr.template]
  | condition | sortKey | table | tableRef | query => rfl

/-! ## Parameters -/

mutual

/-- Every context visits the same literals. -/
theorem Expr.bindings_visits_congr (c c' : Context) :
    ∀ e : Expr, (e.visits c).map Visit.binding = (e.visits c').map Visit.binding
  | .call ⟨_, arg, _, _, alias?⟩ => by
    have hunwritten : ((arg.visits .reference).map Visit.unwritten).map Visit.binding =
        (arg.visits .reference).map Visit.binding := by
      rw [List.map_map]
      rfl
    cases alias? <;> cases c <;> cases c' <;>
      simp [Expr.visits, Call.visits, Context.aliasUse, hunwritten]
  | .composite _ items => by
    rw [Expr.visits, Expr.visits, Expr.bindings_visitsOf_congr c c' items]
  | .column _ | .param _ | .array _ _ | .subquery _ | .table _ | .tableRef _ => by
    rw [Expr.visits, Expr.visits]

theorem Expr.bindings_visitsOf_congr (c c' : Context) :
    ∀ es : List Expr,
      (Expr.visitsOf c es).map Visit.binding = (Expr.visitsOf c' es).map Visit.binding
  | [] => rfl
  | e :: es => by
    rw [Expr.visitsOf, Expr.visitsOf, List.map_append, List.map_append,
      e.bindings_visits_congr c c', Expr.bindings_visitsOf_congr c c' es]

end

/-! ## Texts -/

theorem Column.text_congr {k : Column} (h : c.aliasUse = c'.aliasUse ∨ k.alias? = none) :
    k.text c = k.text c' := by
  unfold text
  rcases h with h | h
  · rw [h]
  · rw [h]

theorem Template.called_congr {alias? : Option String}
    (h : c.aliasUse = c'.aliasUse ∨ alias? = none) (name : String) (distinct : Bool)
    (operand : Template) :
    called c name distinct alias? operand = called c' name distinct alias? operand := by
  unfold called
  rcases h with h | h
  · rw [h]
  · rw [h]

mutual

/-- **Contexts that treat aliases alike write the same**, and so do any two where no alias shows. -/
theorem Expr.spelled_template_congr :
    ∀ e : Expr, c.aliasUse = c'.aliasUse ∨ e.showsAlias = false →
      (e.template c).spelled = (e.template c').spelled
  | .column k, h => by
    have halias : c.aliasUse = c'.aliasUse ∨ k.alias? = none := by
      simpa [Expr.showsAlias] using h
    simp [Expr.template, k.text_congr halias]
  | .call f, h => by
    have halias : c.aliasUse = c'.aliasUse ∨ f.alias? = none := by
      simpa [Expr.showsAlias] using h
    rw [Expr.template, Expr.template, Call.template_eq, Call.template_eq,
      Template.called_congr halias]
  | .composite separator items, h => by
    simp only [Expr.showsAlias] at h
    rw [Expr.template, Expr.template, Template.spelled_joined, Template.spelled_joined,
      Expr.spelled_templates_congr items h]
  | .param _, _ | .array _ _, _ | .subquery _, _ | .table _, _ | .tableRef _, _ => by
    rw [Expr.template, Expr.template]

theorem Expr.spelled_templates_congr :
    ∀ es : List Expr, c.aliasUse = c'.aliasUse ∨ Expr.anyShowsAlias es = false →
      (Expr.templates c es).map Template.spelled = (Expr.templates c' es).map Template.spelled
  | [], _ => rfl
  | e :: es, h => by
    have hparts : (c.aliasUse = c'.aliasUse ∨ e.showsAlias = false) ∧
        (c.aliasUse = c'.aliasUse ∨ Expr.anyShowsAlias es = false) := by
      rw [← or_and_left]
      simpa [Expr.anyShowsAlias] using h
    rw [Expr.templates, Expr.templates, List.map_cons, List.map_cons,
      e.spelled_template_congr hparts.1, Expr.spelled_templates_congr es hparts.2]

end

/-! ## Lengths -/

/-- The length of the text that a template is filled to. -/
def Template.width (d : Dialect) (u : Parameters) (t : Template) : Nat :=
  (String.join ((t.tokens u).map (Token.text d))).length

section Width

variable {d : Dialect} {u : Parameters}

theorem Template.width_cons (piece : Piece) (t : Template) :
    width d u (piece :: t) = ((piece.token u).text d).length + width d u t := by
  unfold width tokens
  rw [List.map_cons, List.map_cons, String.join_cons, String.length_append]

theorem Template.width_append (t t' : Template) :
    width d u (t ++ t') = width d u t + width d u t' := by
  unfold width tokens
  rw [List.map_append, List.map_append, String.join_append, String.length_append]

theorem Column.width_le (k : Column) :
    (k.text .reference).length + k.alias?.isSome.toNat ≤ (k.text .definition).length := by
  unfold text
  cases k.alias? with
  | none => exact Nat.le_refl _
  | some label =>
    have hkeyword : " AS ".length = 4 := by decide
    simp only [Context.aliasUse, Option.isSome_some, Bool.toNat_true, String.length_append,
      hkeyword]
    omega

theorem Template.width_called_le (name : String) (distinct : Bool) (alias? : Option String)
    (operand : Template) :
    width d u (called .reference name distinct alias? operand) + alias?.isSome.toNat ≤
      width d u (called .definition name distinct alias? operand) := by
  cases alias? with
  | none => exact Nat.le_refl _
  | some label =>
    have hadded : 1 ≤ width d u [.text " AS ", .text label] := by
      rw [width_cons]
      exact Nat.le_add_right_of_le (by decide : 1 ≤ " AS ".length)
    simp only [called, Context.aliasUse, Option.isSome_some, Bool.toNat_true, width_append]
    omega

mutual

/-- **A definition is longer than a reference** where an alias shows, and never shorter. -/
theorem Expr.width_le :
    ∀ e : Expr, (e.template .reference).width d u + e.showsAlias.toNat ≤
      (e.template .definition).width d u
  | .column k => by
    rw [Expr.template, Expr.template, Template.width_cons, Template.width_cons, Expr.showsAlias]
    have hk := k.width_le
    simp only [Piece.token, Token.text]
    omega
  | .call f => by
    rw [Expr.template, Expr.template, Call.template_eq, Call.template_eq, Expr.showsAlias]
    exact Template.width_called_le f.name f.distinct f.alias? f.operand
  | .composite separator items => by
    rw [Expr.template, Expr.template, Expr.showsAlias]
    exact Expr.width_joined_le separator items
  | .param _ | .array _ _ | .subquery _ | .table _ | .tableRef _ => by
    rw [Expr.template, Expr.template, Expr.showsAlias]
    exact Nat.le_refl _

theorem Expr.width_joined_le (separator : String) :
    ∀ es : List Expr,
      (Template.joined separator (Expr.templates .reference es)).width d u +
          (Expr.anyShowsAlias es).toNat ≤
        (Template.joined separator (Expr.templates .definition es)).width d u
  | [] => Nat.le_refl _
  | [e] => by
    have he := e.width_le
    simpa [Expr.templates, Template.joined, Expr.anyShowsAlias] using he
  | e :: e' :: es => by
    have he := e.width_le
    have hes := Expr.width_joined_le separator (e' :: es)
    have hor : (e.showsAlias || Expr.anyShowsAlias (e' :: es)).toNat ≤
        e.showsAlias.toNat + (Expr.anyShowsAlias (e' :: es)).toNat := by
      cases e.showsAlias <;> cases Expr.anyShowsAlias (e' :: es) <;> decide
    simp only [Expr.templates] at hes
    rw [Expr.anyShowsAlias]
    simp only [Expr.templates, Template.joined, Template.width_append, Template.width_cons]
    omega

end

end Width

namespace Session

/-- **Contexts decide about aliases that show, and about nothing else.**

An expression leaves the same parameters in all contexts. On its own it is written as in a select
list. All contexts write it alike exactly when no column and no call that it is, or reaches through
composites alone, has an alias. Nodes of all other kinds do not depend on the context. -/
theorem write_contexts (s : Session) :
    (∀ (e : Expr) (c c' : Context), (s.write c (.expr e)).2 = (s.write c' (.expr e)).2) ∧
    (∀ e : Expr, s.write .output (.expr e) = s.write .definition (.expr e)) ∧
    (∀ e : Expr, (∀ c c', s.write c (.expr e) = s.write c' (.expr e)) ↔ e.showsAlias = false) ∧
    ∀ (node : Node) (c c' : Context), node.IgnoresContext → s.write c node = s.write c' node := by
  have hliterals : ∀ (e : Expr) (c c' : Context),
      (Node.expr e).literals c = (Node.expr e).literals c' :=
    fun e c c' => e.bindings_visits_congr c c'
  refine ⟨fun e c c' => ?_, fun e => ?_, fun e => ⟨fun h => ?_, fun h c c' => ?_⟩,
    fun node c c' h => ?_⟩
  · rw [write_eq, write_eq, hliterals e c c']
  · exact s.write_congr_spelled (e.spelled_template_congr (.inl rfl))
  · let u := s.params.bindAll ((Node.expr e).literals .definition)
    have htext := congrArg Prod.fst (h .reference .definition)
    rw [write_eq, write_eq, hliterals e .reference .definition] at htext
    have hsame : (e.template .reference).width s.dialect u =
        (e.template .definition).width s.dialect u := congrArg String.length htext
    have hwidth := e.width_le (d := s.dialect) (u := u)
    exact Bool.toNat_eq_zero.mp (by omega)
  · exact s.write_congr_spelled (e.spelled_template_congr (.inr h))
  · unfold write
    rw [h.template_eq]

/-- An aliased call in a composite: three texts, and the literal is bound also where the alias
stands for it. An alias in the argument of a call does not show, and a condition does not look. -/
theorem write_contexts_aliased :
    let s := start .postgres
    let total : Expr := .call ((Call.sum (.param (.int 2))).aliased "s")
    let sum : Expr := .composite " + " [.verbatim "a", total]
    let upper : Expr := .call (Call.upper sum)
    let node : Node := .condition (.compare total .lt sum)
    (s.write .definition (.expr sum)).1 = "a + SUM($1) AS s" ∧
      (s.write .reference (.expr sum)).1 = "a + SUM($1)" ∧
      s.write .orderBy (.expr sum) = ("a + s", (s.write .definition (.expr sum)).2) ∧
      upper.showsAlias = false ∧
      s.write .orderBy (.expr upper) = s.write .definition (.expr upper) ∧
      node.IgnoresContext ∧ s.write .orderBy node = s.write .output node := by
  intro s total sum upper node
  obtain ⟨hparams, -, hshows, hignores⟩ := s.write_contexts
  have hupper : upper.showsAlias = false := by decide
  have hnode : node.IgnoresContext := trivial
  refine ⟨by decide, by decide, ?_, hupper, (hshows upper).mpr hupper _ _, hnode,
    hignores node _ _ hnode⟩
  exact Prod.ext (by decide : (s.write .orderBy (.expr sum)).1 = "a + s")
    (hparams sum .orderBy .definition)

end Session
end SqlBuilder
