import SqlBuilder.Proofs.Rendering.Trace

/-!
# The same tree with other literals

`Node.mapValues f` applies a function to every literal of a tree and keeps all else: names, aliases,
the shape, and the identities of arrays and nested queries, so that clones stay clones. The template
of the mapped node is the template of the node with its literals mapped (`template_mapValues`): no
text of a statement is made from a literal, and which nodes are visited does not depend on one. It
is one induction over all kinds of nodes.
-/

namespace SqlBuilder

/-! ## Mapping the literals of nodes -/

mutual

/-- The table with `f` applied to every literal in it. -/
def Table.mapValues (f : Value → Value) : Table → Table
  | ⟨name, alias?, source⟩ => ⟨name, alias?, source.mapValues f⟩

def Source.mapValues (f : Value → Value) : Source → Source
  | .base => .base
  | .derived query => .derived (query.mapValues f)

def Subquery.mapValues (f : Value → Value) : Subquery → Subquery
  | ⟨id, clauses⟩ => ⟨id, Clause.mapValuesOf f clauses⟩

/-- The column of the mapped table. -/
def Column.mapValues (f : Value → Value) : Column → Column
  | ⟨name, none, type, alias?⟩ => ⟨name, none, type, alias?⟩
  | ⟨name, some table, type, alias?⟩ => ⟨name, some (table.mapValues f), type, alias?⟩

def Call.mapValues (f : Value → Value) : Call → Call
  | ⟨name, arg, distinct, bare, alias?⟩ => ⟨name, arg.mapValues f, distinct, bare, alias?⟩

/-- The expression with `f` applied to every literal in it. Arrays keep their identities. -/
def Expr.mapValues (f : Value → Value) : Expr → Expr
  | .column column => .column (column.mapValues f)
  | .param value => .param (f value)
  | .array id value => .array id (f value)
  | .call call => .call (call.mapValues f)
  | .composite separator items => .composite separator (Expr.mapValuesOf f items)
  | .subquery query => .subquery (query.mapValues f)
  | .table table => .table (table.mapValues f)
  | .tableRef table => .tableRef (table.mapValues f)

def Expr.mapValuesOf (f : Value → Value) : List Expr → List Expr
  | [] => []
  | item :: items => item.mapValues f :: Expr.mapValuesOf f items

def Condition.mapValues (f : Value → Value) : Condition → Condition
  | .compare left op right => .compare (left.mapValues f) op (right.mapValues f)
  | .compareLiteral left op value => .compareLiteral (left.mapValues f) op (f value)
  | .inLiterals left values => .inLiterals (left.mapValues f) (values.map f)
  | .memberOf left set => .memberOf (left.mapValues f) (set.mapValues f)
  | .compareSet left op quantifier set =>
    .compareSet (left.mapValues f) op quantifier (set.mapValues f)
  | .isNull operand negated => .isNull (operand.mapValues f) negated
  | .existsRows query => .existsRows (query.mapValues f)
  | .chain connective items => .chain connective (Condition.mapValuesOf f items)
  | .grouped inner => .grouped (inner.mapValues f)

def Condition.mapValuesOf (f : Value → Value) : List Condition → List Condition
  | [] => []
  | item :: items => item.mapValues f :: Condition.mapValuesOf f items

def SortKey.mapValues (f : Value → Value) : SortKey → SortKey
  | ⟨expr, direction⟩ => ⟨expr.mapValues f, direction⟩

def SortKey.mapValuesOf (f : Value → Value) : List SortKey → List SortKey
  | [] => []
  | key :: keys => key.mapValues f :: SortKey.mapValuesOf f keys

def Clause.mapValues (f : Value → Value) : Clause → Clause
  | .select distinct items => .select distinct (Expr.mapValuesOf f items)
  | .fromTable table => .fromTable (table.mapValues f)
  | .join kind target none => .join kind (target.mapValues f) none
  | .join kind target (some condition) =>
    .join kind (target.mapValues f) (some (condition.mapValues f))
  | .filter condition => .filter (condition.mapValues f)
  | .groupBy items => .groupBy (Expr.mapValuesOf f items)
  | .having condition => .having (condition.mapValues f)
  | .orderBy keys => .orderBy (SortKey.mapValuesOf f keys)
  | .limit count => .limit count
  | .offset count => .offset count

def Clause.mapValuesOf (f : Value → Value) : List Clause → List Clause
  | [] => []
  | clause :: clauses => clause.mapValues f :: Clause.mapValuesOf f clauses

end

/-- The node with `f` applied to every literal in it. -/
def Node.mapValues (f : Value → Value) : Node → Node
  | expr e => expr (e.mapValues f)
  | condition c => condition (c.mapValues f)
  | sortKey k => sortKey (k.mapValues f)
  | table t => table (t.mapValues f)
  | tableRef t => tableRef (t.mapValues f)
  | query clauses => query (Clause.mapValuesOf f clauses)

/-! ## Mapping the literals of templates -/

/-- The binding of the mapped literal. An identity stays. -/
def Binding.mapValue (f : Value → Value) : Binding → Binding
  | literal v => literal (f v)
  | node id v => node id (f v)

def Piece.mapValue (f : Value → Value) : Piece → Piece
  | text s => text s
  | column c ctx => column (c.mapValues f) ctx
  | slot b => slot (b.mapValue f)
  | hidden b => hidden (b.mapValue f)
  | enter => enter
  | leave => leave

def Template.mapValues (f : Value → Value) (t : Template) : Template := t.map (Piece.mapValue f)

namespace Template

variable {f : Value → Value} {s : String} {b : Binding} {t u : Template}

@[simp]
theorem mapValues_nil : mapValues f [] = [] := rfl

@[simp]
theorem mapValues_text : mapValues f (.text s :: t) = .text s :: mapValues f t := rfl

@[simp]
theorem mapValues_slot : mapValues f (.slot b :: t) = .slot (b.mapValue f) :: mapValues f t := rfl

@[simp]
theorem mapValues_enter : mapValues f (.enter :: t) = .enter :: mapValues f t := rfl

@[simp]
theorem mapValues_leave : mapValues f (.leave :: t) = .leave :: mapValues f t := rfl

@[simp]
theorem mapValues_append : mapValues f (t ++ u) = mapValues f t ++ mapValues f u :=
  List.map_append

/-- A function on pieces that leaves the separator can be applied before joining. -/
theorem map_joined {g : Piece → Piece} {separator : String}
    (hg : g (.text separator) = .text separator) :
    ∀ ts : List Template,
      (joined separator ts).map g = joined separator (ts.map fun t => t.map g)
  | [] => rfl
  | [t] => rfl
  | t :: u :: ts => by
    have ih := map_joined hg (u :: ts)
    simpa [joined, hg] using ih

theorem mapValues_joined (separator : String) (ts : List Template) :
    mapValues f (joined separator ts) = joined separator (ts.map (mapValues f)) :=
  map_joined rfl ts

theorem mapValues_slots (f : Value → Value) (vs : List Value) :
    (vs.map fun v => ([.slot (.literal v)] : Template)).map (mapValues f) =
      (vs.map f).map fun v => [.slot (.literal v)] := by
  rw [List.map_map, List.map_map]
  rfl

/-- The mapped template binds the mapped literals. -/
theorem bindings_mapValues (t : Template) :
    (t.mapValues f).bindings = t.bindings.map (Binding.mapValue f) := by
  unfold bindings mapValues
  rw [List.filterMap_map, List.map_filterMap]
  refine List.filterMap_congr fun piece _ => ?_
  cases piece <;> rfl

theorem mapValues_hide (t : Template) : mapValues f (hide t) = hide (mapValues f t) := by
  unfold hide
  rw [bindings_mapValues, List.map_map]
  unfold mapValues
  rw [List.map_map]
  rfl

/-- A function on pieces that leaves texts can be applied to the argument of a call. -/
theorem map_called {g : Piece → Piece} (hg : ∀ s, g (.text s) = .text s) (ctx : Context)
    (name : String) (distinct : Bool) (alias? : Option String) {operand : Template}
    (hhide : (hide operand).map g = hide (operand.map g)) :
    (called ctx name distinct alias? operand).map g =
      called ctx name distinct alias? (operand.map g) := by
  cases alias? <;> cases ctx <;> simp [called, Context.aliasUse, hg, hhide]

theorem mapValues_called (ctx : Context) (name : String) (distinct : Bool) (alias? : Option String)
    (operand : Template) :
    mapValues f (called ctx name distinct alias? operand) =
      called ctx name distinct alias? (mapValues f operand) :=
  map_called (fun _ => rfl) ctx name distinct alias? (mapValues_hide operand)

theorem mapValues_enclose (set : Expr) (t : Template) :
    mapValues f (set.enclose t) = (set.mapValues f).enclose (mapValues f t) := by
  cases set <;> simp [Expr.enclose, Expr.mapValues]

end Template

/-! ## Names do not come from literals -/

theorem Table.exposedName_mapValues (f : Value → Value) (t : Table) :
    (t.mapValues f).exposedName = t.exposedName := by
  obtain ⟨name, alias?, source⟩ := t
  rfl

theorem Column.text_mapValues (f : Value → Value) (c : Column) (ctx : Context) :
    (c.mapValues f).text ctx = c.text ctx := by
  obtain ⟨name, table?, type, alias?⟩ := c
  cases table? with
  | none => rfl
  | some table =>
    obtain ⟨tableName, tableAlias?, source⟩ := table
    rfl

/-! ## The template of the mapped node -/

open Template

mutual

theorem Table.template_mapValues (f : Value → Value) :
    ∀ t : Table, (t.mapValues f).template = t.template.mapValues f
  | ⟨name, alias?, source⟩ => by
    cases alias? <;> simp [Table.mapValues, Table.template, source.template_mapValues f name]

theorem Source.template_mapValues (f : Value → Value) (name : String) :
    ∀ s : Source, (s.mapValues f).template name = (s.template name).mapValues f
  | .base => by simp [Source.mapValues, Source.template]
  | .derived query => by simp [Source.mapValues, Source.template, query.body_mapValues f]

theorem Subquery.body_mapValues (f : Value → Value) :
    ∀ q : Subquery, (q.mapValues f).body = q.body.mapValues f
  | ⟨_, clauses⟩ => by
    simp [Subquery.mapValues, Subquery.body, Clause.templates_mapValues f clauses]

theorem Call.template_mapValues (f : Value → Value) (ctx : Context) :
    ∀ c : Call, (c.mapValues f).template ctx = (c.template ctx).mapValues f
  | ⟨name, arg, distinct, bare, alias?⟩ => by
    have hoperand : (Call.operand ⟨name, arg.mapValues f, distinct, bare, alias?⟩) =
        (Call.operand ⟨name, arg, distinct, bare, alias?⟩).mapValues f := by
      cases bare with
      | false => exact arg.template_mapValues f .reference
      | true =>
        cases arg with
        | subquery q => exact q.body_mapValues f
        | _ => exact Expr.template_mapValues f .reference _
    rw [Call.mapValues, Call.template_eq, Call.template_eq, mapValues_called, hoperand]

theorem Expr.template_mapValues (f : Value → Value) (ctx : Context) :
    ∀ e : Expr, (e.mapValues f).template ctx = (e.template ctx).mapValues f
  | .column _ => by simp [Expr.mapValues, Expr.template, Template.mapValues, Piece.mapValue]
  | .param _ => by simp [Expr.mapValues, Expr.template, Binding.mapValue]
  | .array _ _ => by simp [Expr.mapValues, Expr.template, Binding.mapValue]
  | .call call => by simp [Expr.mapValues, Expr.template, call.template_mapValues f ctx]
  | .composite _ items => by
    simp [Expr.mapValues, Expr.template, mapValues_joined, Expr.templates_mapValues f ctx items]
  | .subquery query => by simp [Expr.mapValues, Expr.template, query.body_mapValues f]
  | .table table => by simp [Expr.mapValues, Expr.template, table.template_mapValues f]
  | .tableRef table => by simp [Expr.mapValues, Expr.template, table.exposedName_mapValues f]

theorem Expr.templates_mapValues (f : Value → Value) (ctx : Context) :
    ∀ es : List Expr,
      Expr.templates ctx (Expr.mapValuesOf f es) = (Expr.templates ctx es).map (mapValues f)
  | [] => rfl
  | e :: es => by
    simp [Expr.mapValuesOf, Expr.templates, e.template_mapValues f ctx,
      Expr.templates_mapValues f ctx es]

theorem Condition.template_mapValues (f : Value → Value) :
    ∀ c : Condition, (c.mapValues f).template = c.template.mapValues f
  | .compare left _ right => by
    simp [Condition.mapValues, Condition.template, left.template_mapValues f,
      right.template_mapValues f]
  | .compareLiteral left _ _ => by
    simp [Condition.mapValues, Condition.template, left.template_mapValues f, Binding.mapValue]
  | .inLiterals left values => by
    cases values with
    | nil => simp [Condition.mapValues, Condition.template]
    | cons v vs =>
      have hslots := mapValues_slots f (v :: vs)
      simp only [Condition.mapValues, Condition.template, List.isEmpty_map, List.isEmpty_cons,
        Bool.false_eq_true, if_false, mapValues_append, mapValues_text, mapValues_nil,
        mapValues_joined, hslots, left.template_mapValues f]
  | .memberOf left set => by
    simp [Condition.mapValues, Condition.template, left.template_mapValues f, mapValues_enclose,
      set.template_mapValues f]
  | .compareSet left _ _ set => by
    simp [Condition.mapValues, Condition.template, left.template_mapValues f, mapValues_enclose,
      set.template_mapValues f]
  | .isNull operand _ => by
    simp [Condition.mapValues, Condition.template, operand.template_mapValues f]
  | .existsRows query => by simp [Condition.mapValues, Condition.template, query.body_mapValues f]
  | .chain _ items => by
    simp [Condition.mapValues, Condition.template, mapValues_joined,
      Condition.templates_mapValues f items]
  | .grouped inner => by
    simp [Condition.mapValues, Condition.template, inner.template_mapValues f]

theorem Condition.templates_mapValues (f : Value → Value) :
    ∀ cs : List Condition,
      Condition.templates (Condition.mapValuesOf f cs) = (Condition.templates cs).map (mapValues f)
  | [] => rfl
  | c :: cs => by
    simp [Condition.mapValuesOf, Condition.templates, c.template_mapValues f,
      Condition.templates_mapValues f cs]

theorem SortKey.template_mapValues (f : Value → Value) :
    ∀ k : SortKey, (k.mapValues f).template = k.template.mapValues f
  | ⟨expr, _⟩ => by simp [SortKey.mapValues, SortKey.template, expr.template_mapValues f]

theorem SortKey.templates_mapValues (f : Value → Value) :
    ∀ ks : List SortKey,
      SortKey.templates (SortKey.mapValuesOf f ks) = (SortKey.templates ks).map (mapValues f)
  | [] => rfl
  | k :: ks => by
    simp [SortKey.mapValuesOf, SortKey.templates, k.template_mapValues f,
      SortKey.templates_mapValues f ks]

theorem Clause.template_mapValues (f : Value → Value) :
    ∀ c : Clause, (c.mapValues f).template = c.template.mapValues f
  | .select _ [] => by simp [Clause.mapValues, Clause.template, Expr.mapValuesOf]
  | .select _ (item :: items) => by
    have h := Expr.templates_mapValues f .definition (item :: items)
    simp [Clause.mapValues, Clause.template, mapValues_joined, ← h, Expr.mapValuesOf]
  | .fromTable table => by simp [Clause.mapValues, Clause.template, table.template_mapValues f]
  | .join _ target none => by simp [Clause.mapValues, Clause.template, target.template_mapValues f]
  | .join _ target (some condition) => by
    simp [Clause.mapValues, Clause.template, target.template_mapValues f,
      condition.template_mapValues f]
  | .filter condition => by
    simp [Clause.mapValues, Clause.template, condition.template_mapValues f]
  | .groupBy items => by
    simp [Clause.mapValues, Clause.template, mapValues_joined,
      Expr.templates_mapValues f .reference items]
  | .having condition => by
    simp [Clause.mapValues, Clause.template, condition.template_mapValues f]
  | .orderBy keys => by
    simp [Clause.mapValues, Clause.template, mapValues_joined, SortKey.templates_mapValues f keys]
  | .limit _ => by simp [Clause.mapValues, Clause.template]
  | .offset _ => by simp [Clause.mapValues, Clause.template]

theorem Clause.templates_mapValues (f : Value → Value) :
    ∀ cs : List Clause,
      Clause.templates (Clause.mapValuesOf f cs) = (Clause.templates cs).mapValues f
  | [] => rfl
  | c :: cs => by
    simp [Clause.mapValuesOf, Clause.templates, c.template_mapValues f,
      Clause.templates_mapValues f cs]

end

/-- **Mapping the literals of a node maps those of its template** and leaves every text. -/
theorem Node.template_mapValues (f : Value → Value) (ctx : Context) (node : Node) :
    (node.mapValues f).template ctx = (node.template ctx).mapValues f := by
  cases node with
  | expr e => exact e.template_mapValues f ctx
  | condition c => exact c.template_mapValues f
  | sortKey k => exact k.template_mapValues f
  | table t => exact t.template_mapValues f
  | tableRef t => exact congrArg (fun s => [Piece.text s]) (t.exposedName_mapValues f)
  | query clauses => exact Clause.templates_mapValues f clauses

end SqlBuilder
