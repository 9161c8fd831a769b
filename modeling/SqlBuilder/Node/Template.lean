import SqlBuilder.Template

/-!
# Templates of nodes

`Node.template`: what every kind of node writes in a context. Aliases of columns and calls are the
only thing that a context decides. A nested query is written in parentheses, its clauses between
the marks `enter` and `leave`.

Model of `Render::render` for every kind of node, and of `QueryPlan::render_clauses`, as far as it
does not depend on the session.
-/

namespace SqlBuilder

/-- A set to compare with stands in parentheses; those of a nested query are its own. -/
def Expr.enclose (set : Expr) (t : Template) : Template :=
  match set with
  | .subquery _ => t
  | _ => .text "(" :: t ++ [.text ")"]

/-- A call with the argument `operand`. In a sort key its alias stands for it, and its argument is
bound but not written. -/
def Template.called (ctx : Context) (name : String) (distinct : Bool) (alias? : Option String)
    (operand : Template) : Template :=
  let written : Template :=
    .text name :: .text (if distinct then "(DISTINCT " else "(") :: operand ++ [.text ")"]
  match alias?, ctx.aliasUse with
  | some label, .introduced => written ++ [.text " AS ", .text label]
  | some label, .used => Template.hide operand ++ [.text label]
  | _, _ => written

mutual

/-- A table as a source of rows, in every context. -/
def Table.template : Table → Template
  | ⟨name, alias?, source⟩ =>
    source.template name ++
      match alias? with
      | some label => [.text " AS ", .text label]
      | none => []

/-- The rows behind a table of the given name. -/
def Source.template (name : String) : Source → Template
  | .base => [.text name]
  | .derived query => .text "(" :: query.body ++ [.text ")"]

/-- The clauses of a nested query, between marks. -/
def Subquery.body : Subquery → Template
  | ⟨_, clauses⟩ => .enter :: Clause.templates clauses ++ [.leave]

/-- A call. A nested query that is the whole argument of a bare call has no parentheses. -/
def Call.template (ctx : Context) : Call → Template
  | ⟨name, arg, distinct, bare, alias?⟩ =>
    Template.called ctx name distinct alias? <|
      match bare, arg with
      | true, .subquery query => query.body
      | _, arg => arg.template .reference

/-- An expression. -/
def Expr.template (ctx : Context) : Expr → Template
  | .column column => [.column column ctx]
  | .param value => [.slot (.literal value)]
  | .array id value => [.slot (.node id value)]
  | .call call => call.template ctx
  | .composite separator items => Template.joined separator (Expr.templates ctx items)
  | .subquery query => .text "(" :: query.body ++ [.text ")"]
  | .table table => table.template
  | .tableRef table => [.text table.exposedName]

def Expr.templates (ctx : Context) : List Expr → List Template
  | [] => []
  | item :: items => item.template ctx :: Expr.templates ctx items

/-- A condition, in every context. -/
def Condition.template : Condition → Template
  | .compare left op right =>
    left.template .reference ++ .text (" " ++ op.keyword ++ " ") :: right.template .reference
  | .compareLiteral left op value =>
    left.template .reference ++ [.text (" " ++ op.keyword ++ " "), .slot (.literal value)]
  | .inLiterals left values =>
    if values.isEmpty then [.text "1 = 0"]
    else
      left.template .reference ++ .text " IN (" ::
        Template.joined ", " (values.map fun v => [.slot (.literal v)]) ++ [.text ")"]
  | .memberOf left set =>
    left.template .reference ++ .text " IN " :: set.enclose (set.template .reference)
  | .compareSet left op quantifier set =>
    left.template .reference ++
      .text (" " ++ op.keyword ++ " " ++ quantifier.keyword) ::
        set.enclose (set.template .reference)
  | .isNull operand negated =>
    operand.template .reference ++ [.text (if negated then " IS NOT NULL" else " IS NULL")]
  | .existsRows query => .text "EXISTS" :: .text "(" :: query.body ++ [.text ")"]
  | .chain connective items =>
    Template.joined (" " ++ connective.keyword ++ " ") (Condition.templates items)
  | .grouped inner => .text "(" :: inner.template ++ [.text ")"]

def Condition.templates : List Condition → List Template
  | [] => []
  | item :: items => item.template :: Condition.templates items

/-- A sort key, in every context. -/
def SortKey.template : SortKey → Template
  | ⟨expr, direction⟩ => expr.template .orderBy ++ [.text (" " ++ direction.keyword)]

def SortKey.templates : List SortKey → List Template
  | [] => []
  | key :: keys => key.template :: SortKey.templates keys

/-- One clause, with the space before it. -/
def Clause.template : Clause → Template
  | .select distinct items =>
    .text (if distinct then "SELECT DISTINCT " else "SELECT ") ::
      if items.isEmpty then [.text "*"]
      else Template.joined ", " (Expr.templates .definition items)
  | .fromTable table => .text " FROM " :: table.template
  | .join kind target on? =>
    .text (" " ++ kind.keyword ++ " ") :: target.template ++
      match on? with
      | some condition => .text " ON " :: condition.template
      | none => []
  | .filter condition => .text " WHERE " :: condition.template
  | .groupBy items => .text " GROUP BY " :: Template.joined ", " (Expr.templates .reference items)
  | .having condition => .text " HAVING " :: condition.template
  | .orderBy keys => .text " ORDER BY " :: Template.joined ", " (SortKey.templates keys)
  | .limit count => [.text " LIMIT ", .text (toString count)]
  | .offset count => [.text " OFFSET ", .text (toString count)]

/-- The clauses of a query, one after the other. -/
def Clause.templates : List Clause → Template
  | [] => []
  | clause :: clauses => clause.template ++ Clause.templates clauses

end

/-! ## Nodes -/

/-- Anything that can be rendered. -/
inductive Node where
  | expr (expr : Expr)
  | condition (condition : Condition)
  | sortKey (key : SortKey)
  | table (table : Table)
  /-- A table by the name it is referred to. -/
  | tableRef (table : Table)
  /-- A query by its clauses, without parentheses. -/
  | query (clauses : List Clause)

/-- The template of a node in a context. -/
def Node.template (ctx : Context) : Node → Template
  | expr e => e.template ctx
  | condition c => c.template
  | sortKey k => k.template
  | table t => t.template
  | tableRef t => [.text t.exposedName]
  | query clauses => Clause.templates clauses

end SqlBuilder
