import Mathlib.Data.List.Basic
import SqlBuilder.Node.Template

/-!
# The literals that writing a node meets

`Node.visits` lists them from left to right by recursion on the node alone: no text, no template.
A visit is *written* when a placeholder stands for the literal, and it is not when an alias is
written in place of the call that the literal is an argument of. `visits_template` says that the
template of a node has these visits and no others, in this order; it is one induction over all
kinds of nodes.
-/

namespace SqlBuilder

/-- A literal met while a node is written. -/
structure Visit where
  binding : Binding
  /-- Whether a placeholder is written for it. -/
  written : Bool

namespace Visit

/-- A visit whose text is dropped. -/
def unwritten (v : Visit) : Visit := ⟨v.binding, false⟩

/-- A literal that is bound by its value and written. -/
def ofValue (v : Value) : Visit := ⟨.literal v, true⟩

end Visit

/-! ## Visits of nodes -/

mutual

/-- The visits of a table as a source of rows. -/
def Table.visits : Table → List Visit
  | ⟨_, _, source⟩ => source.visits

def Source.visits : Source → List Visit
  | .base => []
  | .derived query => query.visits

def Subquery.visits : Subquery → List Visit
  | ⟨_, clauses⟩ => Clause.visitsOf clauses

/-- The visits of a call. Those of its argument are not written where its alias stands for it. -/
def Call.visits (ctx : Context) : Call → List Visit
  | ⟨_, arg, _, _, alias?⟩ =>
    match alias?, ctx.aliasUse with
    | some _, .used => (arg.visits .reference).map Visit.unwritten
    | _, _ => arg.visits .reference

def Expr.visits (ctx : Context) : Expr → List Visit
  | .param value => [.ofValue value]
  | .array id value => [⟨.node id value, true⟩]
  | .call call => call.visits ctx
  | .composite _ items => Expr.visitsOf ctx items
  | .subquery query => query.visits
  | .table table => table.visits
  | .column _ | .tableRef _ => []

def Expr.visitsOf (ctx : Context) : List Expr → List Visit
  | [] => []
  | item :: items => item.visits ctx ++ Expr.visitsOf ctx items

/-- The visits of a condition. A test against an empty list does not look at its left side. -/
def Condition.visits : Condition → List Visit
  | .compare left _ right => left.visits .reference ++ right.visits .reference
  | .compareLiteral left _ value => left.visits .reference ++ [.ofValue value]
  | .inLiterals left values =>
    if values.isEmpty then [] else left.visits .reference ++ values.map .ofValue
  | .memberOf left set => left.visits .reference ++ set.visits .reference
  | .compareSet left _ _ set => left.visits .reference ++ set.visits .reference
  | .isNull operand _ => operand.visits .reference
  | .existsRows query => query.visits
  | .chain _ items => Condition.visitsOf items
  | .grouped inner => inner.visits

def Condition.visitsOf : List Condition → List Visit
  | [] => []
  | item :: items => item.visits ++ Condition.visitsOf items

def SortKey.visits : SortKey → List Visit
  | ⟨expr, _⟩ => expr.visits .orderBy

def SortKey.visitsOf : List SortKey → List Visit
  | [] => []
  | key :: keys => key.visits ++ SortKey.visitsOf keys

def Clause.visits : Clause → List Visit
  | .select _ items => Expr.visitsOf .definition items
  | .fromTable table => table.visits
  | .join _ target on? =>
    target.visits ++
      match on? with
      | some condition => condition.visits
      | none => []
  | .filter condition => condition.visits
  | .groupBy items => Expr.visitsOf .reference items
  | .having condition => condition.visits
  | .orderBy keys => SortKey.visitsOf keys
  | .limit _ | .offset _ => []

def Clause.visitsOf : List Clause → List Visit
  | [] => []
  | clause :: clauses => clause.visits ++ Clause.visitsOf clauses

end

/-- The visits of a node in a context, from left to right. -/
def Node.visits (ctx : Context) : Node → List Visit
  | expr e => e.visits ctx
  | condition c => c.visits
  | sortKey k => k.visits
  | table t => t.visits
  | tableRef _ => []
  | query clauses => Clause.visitsOf clauses

/-- The literals that the node binds, from left to right. -/
def Node.literals (ctx : Context) (node : Node) : List Binding :=
  (node.visits ctx).map Visit.binding

/-! ## Visits of templates -/

/-- The visit of a piece, if it binds a literal. -/
def Piece.visit? : Piece → Option Visit
  | slot b => some ⟨b, true⟩
  | hidden b => some ⟨b, false⟩
  | text _ | column _ _ | enter | leave => none

namespace Template

/-- The visits of a template, from left to right. -/
def visits (t : Template) : List Visit := t.filterMap Piece.visit?

variable {s : String} {b : Binding} {t u : Template}

@[simp]
theorem visits_nil : visits [] = [] := rfl

@[simp]
theorem visits_text : visits (.text s :: t) = visits t := rfl

@[simp]
theorem visits_column {c : Column} {ctx : Context} : visits (.column c ctx :: t) = visits t := rfl

@[simp]
theorem visits_slot : visits (.slot b :: t) = ⟨b, true⟩ :: visits t := rfl

@[simp]
theorem visits_enter : visits (.enter :: t) = visits t := rfl

@[simp]
theorem visits_leave : visits (.leave :: t) = visits t := rfl

@[simp]
theorem visits_append : visits (t ++ u) = visits t ++ visits u := List.filterMap_append

theorem visits_joined (separator : String) :
    ∀ ts : List Template, visits (joined separator ts) = (ts.map visits).flatten
  | [] => rfl
  | [t] => by simp [joined]
  | t :: u :: ts => by
    rw [joined, visits_append, visits_text, visits_joined separator (u :: ts)]
    · rfl
    · simp

/-- What a template binds are the literals of its visits. -/
theorem bindings_eq (t : Template) : t.bindings = t.visits.map Visit.binding := by
  unfold bindings visits
  rw [List.map_filterMap]
  congr
  funext piece
  cases piece <;> rfl

/-- Hiding a template keeps its visits and drops their texts. -/
theorem visits_hide (t : Template) : visits (hide t) = t.visits.map Visit.unwritten := by
  unfold hide visits
  rw [List.filterMap_map, bindings_eq, List.filterMap_map, ← List.filterMap_eq_map]
  rfl

theorem visits_enclose (set : Expr) (t : Template) : visits (set.enclose t) = visits t := by
  cases set <;> simp [Expr.enclose]

/-- Where an alias stands for a call, its argument is visited and not written. -/
theorem visits_called (ctx : Context) (name : String) (distinct : Bool) (alias? : Option String)
    (operand : Template) :
    visits (called ctx name distinct alias? operand) =
      match alias?, ctx.aliasUse with
      | some _, .used => operand.visits.map Visit.unwritten
      | _, _ => operand.visits := by
  cases alias? <;> cases ctx <;> simp [called, Context.aliasUse, visits_hide]

theorem visits_slots (vs : List Value) :
    ((vs.map fun v => ([.slot (.literal v)] : Template)).map visits).flatten =
      vs.map Visit.ofValue := by
  induction vs with
  | nil => rfl
  | cons v vs ih =>
    rw [List.map_cons, List.map_cons, List.flatten_cons, ih]
    rfl

end Template

/-! ## The template of a node has the node's visits -/

open Template

/-- The argument of a call, as it stands between the call's parentheses. -/
def Call.operand (c : Call) : Template :=
  match c.bare, c.arg with
  | true, .subquery query => query.body
  | _, arg => arg.template .reference

theorem Call.template_eq (ctx : Context) (c : Call) :
    c.template ctx = called ctx c.name c.distinct c.alias? c.operand := by
  obtain ⟨_, arg, _, bare, _⟩ := c
  cases bare <;> cases arg <;> rfl

mutual

theorem Table.visits_template : ∀ t : Table, t.template.visits = t.visits
  | ⟨name, alias?, source⟩ => by
    cases alias? <;> simp [Table.template, Table.visits, source.visits_template name]

theorem Source.visits_template (name : String) :
    ∀ s : Source, (s.template name).visits = s.visits
  | .base => by simp [Source.template, Source.visits]
  | .derived query => by simp [Source.template, Source.visits, query.visits_body]

theorem Subquery.visits_body : ∀ q : Subquery, q.body.visits = q.visits
  | ⟨_, clauses⟩ => by simp [Subquery.body, Subquery.visits, Clause.visits_templates clauses]

theorem Call.visits_template (ctx : Context) : ∀ c : Call, (c.template ctx).visits = c.visits ctx
  | ⟨name, arg, distinct, bare, alias?⟩ => by
    have hoperand : (Call.operand ⟨name, arg, distinct, bare, alias?⟩).visits =
        arg.visits .reference := by
      unfold Call.operand
      split
      · rename_i query _ harg
        cases harg
        rw [query.visits_body, Expr.visits]
      · exact arg.visits_template .reference
    rw [Call.template_eq, visits_called, hoperand]
    cases alias? <;> cases ctx <;> rfl

theorem Expr.visits_template (ctx : Context) : ∀ e : Expr, (e.template ctx).visits = e.visits ctx
  | .column _ => by simp [Expr.template, Expr.visits]
  | .param _ => by simp [Expr.template, Expr.visits, Visit.ofValue]
  | .array _ _ => by simp [Expr.template, Expr.visits]
  | .call call => by simp [Expr.template, Expr.visits, call.visits_template ctx]
  | .composite _ items => by
    simp [Expr.template, Expr.visits, visits_joined, Expr.visits_templates ctx items]
  | .subquery query => by simp [Expr.template, Expr.visits, query.visits_body]
  | .table table => by simp [Expr.template, Expr.visits, table.visits_template]
  | .tableRef _ => by simp [Expr.template, Expr.visits]

theorem Expr.visits_templates (ctx : Context) :
    ∀ es : List Expr, ((Expr.templates ctx es).map visits).flatten = Expr.visitsOf ctx es
  | [] => rfl
  | e :: es => by
    simp [Expr.templates, Expr.visitsOf, e.visits_template ctx, Expr.visits_templates ctx es]

theorem Condition.visits_template : ∀ c : Condition, c.template.visits = c.visits
  | .compare left _ right => by
    simp [Condition.template, Condition.visits, left.visits_template, right.visits_template]
  | .compareLiteral left _ _ => by
    simp [Condition.template, Condition.visits, left.visits_template, Visit.ofValue]
  | .inLiterals left values => by
    cases values with
    | nil => simp [Condition.template, Condition.visits]
    | cons v vs =>
      have hslots := visits_slots (v :: vs)
      simp only [Condition.template, Condition.visits, List.isEmpty_cons, Bool.false_eq_true,
        if_false, visits_append, visits_text, visits_nil, visits_joined, hslots,
        left.visits_template, List.append_nil]
  | .memberOf left set => by
    simp [Condition.template, Condition.visits, left.visits_template, visits_enclose,
      set.visits_template]
  | .compareSet left _ _ set => by
    simp [Condition.template, Condition.visits, left.visits_template, visits_enclose,
      set.visits_template]
  | .isNull operand _ => by
    simp [Condition.template, Condition.visits, operand.visits_template]
  | .existsRows query => by simp [Condition.template, Condition.visits, query.visits_body]
  | .chain _ items => by
    simp [Condition.template, Condition.visits, visits_joined, Condition.visits_templates items]
  | .grouped inner => by simp [Condition.template, Condition.visits, inner.visits_template]

theorem Condition.visits_templates :
    ∀ cs : List Condition, ((Condition.templates cs).map visits).flatten = Condition.visitsOf cs
  | [] => rfl
  | c :: cs => by
    simp [Condition.templates, Condition.visitsOf, c.visits_template, Condition.visits_templates cs]

theorem SortKey.visits_template : ∀ k : SortKey, k.template.visits = k.visits
  | ⟨expr, _⟩ => by simp [SortKey.template, SortKey.visits, expr.visits_template]

theorem SortKey.visits_templates :
    ∀ ks : List SortKey, ((SortKey.templates ks).map visits).flatten = SortKey.visitsOf ks
  | [] => rfl
  | k :: ks => by
    simp [SortKey.templates, SortKey.visitsOf, k.visits_template, SortKey.visits_templates ks]

theorem Clause.visits_template : ∀ c : Clause, c.template.visits = c.visits
  | .select _ [] => by simp [Clause.template, Clause.visits, Expr.visitsOf]
  | .select _ (item :: items) => by
    simp [Clause.template, Clause.visits, visits_joined,
      Expr.visits_templates .definition (item :: items)]
  | .fromTable table => by simp [Clause.template, Clause.visits, table.visits_template]
  | .join _ target none => by simp [Clause.template, Clause.visits, target.visits_template]
  | .join _ target (some condition) => by
    simp [Clause.template, Clause.visits, target.visits_template, condition.visits_template]
  | .filter condition => by simp [Clause.template, Clause.visits, condition.visits_template]
  | .groupBy items => by
    simp [Clause.template, Clause.visits, visits_joined, Expr.visits_templates .reference items]
  | .having condition => by simp [Clause.template, Clause.visits, condition.visits_template]
  | .orderBy keys => by
    simp [Clause.template, Clause.visits, visits_joined, SortKey.visits_templates keys]
  | .limit _ => by simp [Clause.template, Clause.visits]
  | .offset _ => by simp [Clause.template, Clause.visits]

theorem Clause.visits_templates :
    ∀ cs : List Clause, (Clause.templates cs).visits = Clause.visitsOf cs
  | [] => rfl
  | c :: cs => by
    simp [Clause.templates, Clause.visitsOf, c.visits_template, Clause.visits_templates cs]

end

/-- **The template of a node visits the node's literals**, in every context. -/
theorem Node.visits_template (ctx : Context) (node : Node) :
    (node.template ctx).visits = node.visits ctx := by
  cases node with
  | expr e => exact e.visits_template ctx
  | condition c => exact c.visits_template
  | sortKey k => exact k.visits_template
  | table t => exact t.visits_template
  | tableRef t => rfl
  | query clauses => exact Clause.visits_templates clauses

end SqlBuilder
