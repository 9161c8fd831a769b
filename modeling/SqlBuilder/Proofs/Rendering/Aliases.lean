import SqlBuilder.Call
import SqlBuilder.Proofs.Rendering.FirstSeen
import SqlBuilder.Proofs.Rendering.MapValues

/-!
# Aliases stay in the output of a query

Columns and calls have aliases for the output of a query: a select list introduces them and a sort
key uses them. Inside a condition, an item of a grouping or the argument of a call there is no
output, and an alias that a column or a call has there is an *inner* one.

`Node.eraseInnerAliases` takes the inner aliases away, at every depth. It looks at the place of an
expression only, never at what is written for it. A nested query has an output of its own, so its
select list and its sort keys keep their aliases. `write_innerAliases` says that inner aliases make
no difference to a session. Columns with different aliases are different pieces of a template, so
templates are compared with the texts of columns in their place (`Template.spelled`).
-/

namespace SqlBuilder

/-! ## Erasing inner aliases -/

mutual

/-- The alias of a table is not that of a column, and stays. -/
def Table.eraseInnerAliases : Table → Table
  | ⟨name, alias?, source⟩ => ⟨name, alias?, source.eraseInnerAliases⟩

def Source.eraseInnerAliases : Source → Source
  | .base => .base
  | .derived query => .derived query.eraseInnerAliases

def Subquery.eraseInnerAliases : Subquery → Subquery
  | ⟨id, clauses⟩ => ⟨id, Clause.eraseInnerAliasesOf clauses⟩

/-- The column, with its own alias if that is to be kept. -/
def Column.eraseInnerAliases (keep : Bool) : Column → Column
  | ⟨name, none, type, alias?⟩ => ⟨name, none, type, alias?.filter fun _ => keep⟩
  | ⟨name, some table, type, alias?⟩ =>
    ⟨name, some table.eraseInnerAliases, type, alias?.filter fun _ => keep⟩

/-- The call, with its own alias if that is to be kept. -/
def Call.eraseInnerAliases (keep : Bool) : Call → Call
  | ⟨name, arg, distinct, bare, alias?⟩ =>
    ⟨name, arg.eraseInnerAliases false, distinct, bare, alias?.filter fun _ => keep⟩

/-- The expression. The items of a composite stand where the composite does. -/
def Expr.eraseInnerAliases (keep : Bool) : Expr → Expr
  | .column column => .column (column.eraseInnerAliases keep)
  | .param value => .param value
  | .array id value => .array id value
  | .call call => .call (call.eraseInnerAliases keep)
  | .composite separator items => .composite separator (Expr.eraseInnerAliasesOf keep items)
  | .subquery query => .subquery query.eraseInnerAliases
  | .table table => .table table.eraseInnerAliases
  | .tableRef table => .tableRef table.eraseInnerAliases

def Expr.eraseInnerAliasesOf (keep : Bool) : List Expr → List Expr
  | [] => []
  | item :: items => item.eraseInnerAliases keep :: Expr.eraseInnerAliasesOf keep items

def Condition.eraseInnerAliases : Condition → Condition
  | .compare left op right =>
    .compare (left.eraseInnerAliases false) op (right.eraseInnerAliases false)
  | .compareLiteral left op value => .compareLiteral (left.eraseInnerAliases false) op value
  | .inLiterals left values => .inLiterals (left.eraseInnerAliases false) values
  | .memberOf left set => .memberOf (left.eraseInnerAliases false) (set.eraseInnerAliases false)
  | .compareSet left op quantifier set =>
    .compareSet (left.eraseInnerAliases false) op quantifier (set.eraseInnerAliases false)
  | .isNull operand negated => .isNull (operand.eraseInnerAliases false) negated
  | .existsRows query => .existsRows query.eraseInnerAliases
  | .chain connective items => .chain connective (Condition.eraseInnerAliasesOf items)
  | .grouped inner => .grouped inner.eraseInnerAliases

def Condition.eraseInnerAliasesOf : List Condition → List Condition
  | [] => []
  | item :: items => item.eraseInnerAliases :: Condition.eraseInnerAliasesOf items

def SortKey.eraseInnerAliases : SortKey → SortKey
  | ⟨expr, direction⟩ => ⟨expr.eraseInnerAliases true, direction⟩

def SortKey.eraseInnerAliasesOf : List SortKey → List SortKey
  | [] => []
  | key :: keys => key.eraseInnerAliases :: SortKey.eraseInnerAliasesOf keys

def Clause.eraseInnerAliases : Clause → Clause
  | .select distinct items => .select distinct (Expr.eraseInnerAliasesOf true items)
  | .fromTable table => .fromTable table.eraseInnerAliases
  | .join kind target none => .join kind target.eraseInnerAliases none
  | .join kind target (some condition) =>
    .join kind target.eraseInnerAliases (some condition.eraseInnerAliases)
  | .filter condition => .filter condition.eraseInnerAliases
  | .groupBy items => .groupBy (Expr.eraseInnerAliasesOf false items)
  | .having condition => .having condition.eraseInnerAliases
  | .orderBy keys => .orderBy (SortKey.eraseInnerAliasesOf keys)
  | .limit count => .limit count
  | .offset count => .offset count

def Clause.eraseInnerAliasesOf : List Clause → List Clause
  | [] => []
  | clause :: clauses => clause.eraseInnerAliases :: Clause.eraseInnerAliasesOf clauses

end

/-- The node without its inner aliases. An expression on its own keeps its alias. -/
def Node.eraseInnerAliases : Node → Node
  | expr e => expr (e.eraseInnerAliases true)
  | condition c => condition c.eraseInnerAliases
  | sortKey k => sortKey k.eraseInnerAliases
  | table t => table t.eraseInnerAliases
  | tableRef t => tableRef t.eraseInnerAliases
  | query clauses => query (Clause.eraseInnerAliasesOf clauses)

/-! ## Templates with their columns spelled out -/

/-- The piece, with the text of a column in place of the column. -/
def Piece.spelled : Piece → Piece
  | column c ctx => text (c.text ctx)
  | text s => text s
  | slot b => slot b
  | hidden b => hidden b
  | enter => enter
  | leave => leave

def Template.spelled (t : Template) : Template := t.map Piece.spelled

namespace Template

variable {s : String} {b : Binding} {t u : Template}

@[simp]
theorem spelled_nil : spelled [] = [] := rfl

@[simp]
theorem spelled_text : spelled (.text s :: t) = .text s :: spelled t := rfl

@[simp]
theorem spelled_column {c : Column} {ctx : Context} :
    spelled (.column c ctx :: t) = .text (c.text ctx) :: spelled t := rfl

@[simp]
theorem spelled_slot : spelled (.slot b :: t) = .slot b :: spelled t := rfl

@[simp]
theorem spelled_enter : spelled (.enter :: t) = .enter :: spelled t := rfl

@[simp]
theorem spelled_leave : spelled (.leave :: t) = .leave :: spelled t := rfl

@[simp]
theorem spelled_append : spelled (t ++ u) = spelled t ++ spelled u := List.map_append

theorem spelled_joined (separator : String) (ts : List Template) :
    spelled (joined separator ts) = joined separator (ts.map spelled) :=
  map_joined rfl ts

theorem bindings_spelled (t : Template) : t.spelled.bindings = t.bindings := by
  unfold bindings spelled
  rw [List.filterMap_map]
  refine List.filterMap_congr fun piece _ => ?_
  cases piece <;> rfl

theorem spelled_hide (t : Template) : spelled (hide t) = hide (spelled t) := by
  rw [hide, hide, bindings_spelled, spelled, List.map_map]
  rfl

theorem spelled_called (ctx : Context) (name : String) (distinct : Bool) (alias? : Option String)
    (operand : Template) :
    spelled (called ctx name distinct alias? operand) =
      called ctx name distinct alias? (spelled operand) :=
  map_called (fun _ => rfl) ctx name distinct alias? (spelled_hide operand)

theorem spelled_enclose (set : Expr) (t : Template) :
    spelled (set.enclose t) = set.enclose (spelled t) := by
  cases set <;> simp [Expr.enclose]

/-- Spelling out the columns changes nothing of what is written. -/
theorem write_spelled (d : Dialect) (p : Parameters) (t : Template) :
    t.spelled.write d p = t.write d p := by
  induction t generalizing p with
  | nil => rfl
  | cons piece t ih =>
    have hpiece : piece.spelled.write d p = piece.write d p := by cases piece <;> rfl
    change write d p (piece.spelled :: spelled t) = _
    rw [write_cons, write_cons, hpiece, ih]

end Template

/-! ## One place -/

section

variable {keep : Bool} {ctx : Context}

/-- An alias is kept, or it stands in a context that does not write it. -/
def Context.Fits (ctx : Context) (keep : Bool) : Prop := keep = true ∨ ctx.aliasUse = .ignored

theorem Context.Fits.kept (ctx : Context) : ctx.Fits true := .inl rfl

theorem Context.Fits.reference : reference.Fits keep := .inr rfl

theorem Table.exposedName_eraseInnerAliases (t : Table) :
    t.eraseInnerAliases.exposedName = t.exposedName := by
  obtain ⟨name, alias?, source⟩ := t
  rfl

theorem Column.qualifiedName_eraseInnerAliases (keep : Bool) (c : Column) :
    (c.eraseInnerAliases keep).qualifiedName = c.qualifiedName := by
  obtain ⟨name, table?, type, alias?⟩ := c
  cases table? with
  | none => rfl
  | some table =>
    change table.eraseInnerAliases.exposedName ++ "." ++ name = _
    rw [table.exposedName_eraseInnerAliases]
    rfl

theorem Column.alias?_eraseInnerAliases (keep : Bool) (c : Column) :
    (c.eraseInnerAliases keep).alias? = c.alias?.filter fun _ => keep := by
  obtain ⟨name, table?, type, alias?⟩ := c
  cases table? <;> rfl

theorem Column.text_eraseInnerAliases (h : ctx.Fits keep) (c : Column) :
    (c.eraseInnerAliases keep).text ctx = c.text ctx := by
  unfold text
  rw [c.alias?_eraseInnerAliases, c.qualifiedName_eraseInnerAliases]
  rcases h with rfl | h
  · cases c.alias? <;> rfl
  · cases keep <;> cases c.alias? <;> simp [h]

/-- A call whose alias is not to be kept is written without it already. -/
theorem Template.called_filter (h : ctx.Fits keep) (name : String) (distinct : Bool)
    (alias? : Option String) (operand : Template) :
    called ctx name distinct (alias?.filter fun _ => keep) operand =
      called ctx name distinct alias? operand := by
  unfold called
  rcases h with rfl | h
  · cases alias? <;> rfl
  · cases keep <;> cases alias? <;> simp [h]

theorem Expr.enclose_eraseInnerAliases (set : Expr) (t : Template) :
    (set.eraseInnerAliases keep).enclose t = set.enclose t := by
  cases set <;> simp [enclose, eraseInnerAliases]

end

/-! ## All places -/

open Template

mutual

theorem Table.spelled_eraseInnerAliases :
    ∀ t : Table, t.eraseInnerAliases.template.spelled = t.template.spelled
  | ⟨name, alias?, source⟩ => by
    simp [Table.eraseInnerAliases, Table.template, source.spelled_eraseInnerAliases name]

theorem Source.spelled_eraseInnerAliases (name : String) :
    ∀ s : Source, (s.eraseInnerAliases.template name).spelled = (s.template name).spelled
  | .base => rfl
  | .derived query => by
    simp [Source.eraseInnerAliases, Source.template, query.spelled_eraseInnerAliases]

theorem Subquery.spelled_eraseInnerAliases :
    ∀ q : Subquery, q.eraseInnerAliases.body.spelled = q.body.spelled
  | ⟨_, clauses⟩ => by
    simp [Subquery.eraseInnerAliases, Subquery.body, Clause.spelled_eraseInnerAliasesOf clauses]

/-- The argument of a call stands inside, wherever the call does. -/
theorem Call.spelled_eraseInnerAliases {keep : Bool} {ctx : Context} (h : ctx.Fits keep) :
    ∀ f : Call, ((f.eraseInnerAliases keep).template ctx).spelled = (f.template ctx).spelled
  | ⟨name, arg, distinct, bare, alias?⟩ => by
    have hoperand :
        (Call.operand ⟨name, arg.eraseInnerAliases false, distinct, bare,
          alias?.filter fun _ => keep⟩).spelled =
        (Call.operand ⟨name, arg, distinct, bare, alias?⟩).spelled := by
      cases bare with
      | false => exact arg.spelled_eraseInnerAliases .reference
      | true =>
        -- only a nested query is written differently in a bare call, and it stays one
        cases arg with
        | subquery q => exact q.spelled_eraseInnerAliases
        | _ => exact Expr.spelled_eraseInnerAliases .reference _
    rw [Call.eraseInnerAliases, Call.template_eq, Call.template_eq, spelled_called, spelled_called,
      hoperand]
    exact called_filter h name distinct alias? _

theorem Expr.spelled_eraseInnerAliases {keep : Bool} {ctx : Context} (h : ctx.Fits keep) :
    ∀ e : Expr, ((e.eraseInnerAliases keep).template ctx).spelled = (e.template ctx).spelled
  | .column c => by simp [Expr.eraseInnerAliases, Expr.template, c.text_eraseInnerAliases h]
  | .param _ | .array _ _ => by simp [Expr.eraseInnerAliases, Expr.template]
  | .call f => by simp [Expr.eraseInnerAliases, Expr.template, f.spelled_eraseInnerAliases h]
  | .composite _ items => by
    simp [Expr.eraseInnerAliases, Expr.template, spelled_joined,
      Expr.spelled_eraseInnerAliasesOf h items]
  | .subquery query => by
    simp [Expr.eraseInnerAliases, Expr.template, query.spelled_eraseInnerAliases]
  | .table t => by simp [Expr.eraseInnerAliases, Expr.template, t.spelled_eraseInnerAliases]
  | .tableRef t => by simp [Expr.eraseInnerAliases, Expr.template, t.exposedName_eraseInnerAliases]

theorem Expr.spelled_eraseInnerAliasesOf {keep : Bool} {ctx : Context} (h : ctx.Fits keep) :
    ∀ es : List Expr,
      (Expr.templates ctx (Expr.eraseInnerAliasesOf keep es)).map spelled =
        (Expr.templates ctx es).map spelled
  | [] => rfl
  | e :: es => by
    simp [Expr.eraseInnerAliasesOf, Expr.templates, e.spelled_eraseInnerAliases h,
      Expr.spelled_eraseInnerAliasesOf h es]

theorem Condition.spelled_eraseInnerAliases :
    ∀ c : Condition, c.eraseInnerAliases.template.spelled = c.template.spelled
  | .compare left _ right => by
    simp [Condition.eraseInnerAliases, Condition.template,
      left.spelled_eraseInnerAliases .reference, right.spelled_eraseInnerAliases .reference]
  | .compareLiteral left _ _ => by
    simp [Condition.eraseInnerAliases, Condition.template,
      left.spelled_eraseInnerAliases .reference]
  | .inLiterals left values => by
    cases values with
    | nil => rfl
    | cons v vs =>
      simp [Condition.eraseInnerAliases, Condition.template,
        left.spelled_eraseInnerAliases .reference]
  | .memberOf left set | .compareSet left _ _ set => by
    simp [Condition.eraseInnerAliases, Condition.template, spelled_enclose,
      set.enclose_eraseInnerAliases, left.spelled_eraseInnerAliases .reference,
      set.spelled_eraseInnerAliases .reference]
  | .isNull operand _ => by
    simp [Condition.eraseInnerAliases, Condition.template,
      operand.spelled_eraseInnerAliases .reference]
  | .existsRows query => by
    simp [Condition.eraseInnerAliases, Condition.template, query.spelled_eraseInnerAliases]
  | .chain _ items => by
    simp [Condition.eraseInnerAliases, Condition.template, spelled_joined,
      Condition.spelled_eraseInnerAliasesOf items]
  | .grouped inner => by
    simp [Condition.eraseInnerAliases, Condition.template, inner.spelled_eraseInnerAliases]

theorem Condition.spelled_eraseInnerAliasesOf :
    ∀ cs : List Condition,
      (Condition.templates (Condition.eraseInnerAliasesOf cs)).map spelled =
        (Condition.templates cs).map spelled
  | [] => rfl
  | c :: cs => by
    simp [Condition.eraseInnerAliasesOf, Condition.templates, c.spelled_eraseInnerAliases,
      Condition.spelled_eraseInnerAliasesOf cs]

theorem SortKey.spelled_eraseInnerAliases :
    ∀ k : SortKey, k.eraseInnerAliases.template.spelled = k.template.spelled
  | ⟨expr, _⟩ => by
    simp [SortKey.eraseInnerAliases, SortKey.template, expr.spelled_eraseInnerAliases (.kept _)]

theorem SortKey.spelled_eraseInnerAliasesOf :
    ∀ ks : List SortKey,
      (SortKey.templates (SortKey.eraseInnerAliasesOf ks)).map spelled =
        (SortKey.templates ks).map spelled
  | [] => rfl
  | k :: ks => by
    simp [SortKey.eraseInnerAliasesOf, SortKey.templates, k.spelled_eraseInnerAliases,
      SortKey.spelled_eraseInnerAliasesOf ks]

theorem Clause.spelled_eraseInnerAliases :
    ∀ c : Clause, c.eraseInnerAliases.template.spelled = c.template.spelled
  | .select _ [] => rfl
  | .select _ (item :: items) => by
    have hitems := Expr.spelled_eraseInnerAliasesOf (.kept .definition) (item :: items)
    simpa [Clause.eraseInnerAliases, Clause.template, spelled_joined, Expr.eraseInnerAliasesOf]
      using congrArg (joined ", ") hitems
  | .fromTable t => by
    simp [Clause.eraseInnerAliases, Clause.template, t.spelled_eraseInnerAliases]
  | .join _ target none => by
    simp [Clause.eraseInnerAliases, Clause.template, target.spelled_eraseInnerAliases]
  | .join _ target (some condition) => by
    simp [Clause.eraseInnerAliases, Clause.template, target.spelled_eraseInnerAliases,
      condition.spelled_eraseInnerAliases]
  | .filter condition | .having condition => by
    simp [Clause.eraseInnerAliases, Clause.template, condition.spelled_eraseInnerAliases]
  | .groupBy items => by
    simp [Clause.eraseInnerAliases, Clause.template, spelled_joined,
      Expr.spelled_eraseInnerAliasesOf .reference items]
  | .orderBy keys => by
    simp [Clause.eraseInnerAliases, Clause.template, spelled_joined,
      SortKey.spelled_eraseInnerAliasesOf keys]
  | .limit _ | .offset _ => rfl

theorem Clause.spelled_eraseInnerAliasesOf :
    ∀ cs : List Clause,
      (Clause.templates (Clause.eraseInnerAliasesOf cs)).spelled = (Clause.templates cs).spelled
  | [] => rfl
  | c :: cs => by
    simp [Clause.eraseInnerAliasesOf, Clause.templates, c.spelled_eraseInnerAliases,
      Clause.spelled_eraseInnerAliasesOf cs]

end

/-- **Without its inner aliases a node has the same template**, up to the spelling of columns. -/
theorem Node.spelled_eraseInnerAliases (ctx : Context) (node : Node) :
    (node.eraseInnerAliases.template ctx).spelled = (node.template ctx).spelled := by
  cases node with
  | expr e => exact e.spelled_eraseInnerAliases (.kept ctx)
  | condition c => exact c.spelled_eraseInnerAliases
  | sortKey k => exact k.spelled_eraseInnerAliases
  | table t => exact t.spelled_eraseInnerAliases
  | tableRef t =>
    change spelled [.text t.eraseInnerAliases.exposedName] = _
    rw [t.exposedName_eraseInnerAliases]
    rfl
  | query clauses => exact Clause.spelled_eraseInnerAliasesOf clauses

namespace Session

theorem write_congr_spelled (s : Session) {c c' : Context} {n m : Node}
    (h : (n.template c).spelled = (m.template c').spelled) : s.write c n = s.write c' m := by
  unfold write
  rw [← Template.write_spelled, h, Template.write_spelled]

/-- **Inner aliases are never written**, for every node, context and session: without them the text
and the parameters are the same. So they are for any two nodes that differ in inner aliases only. -/
theorem write_innerAliases (s : Session) (ctx : Context) (node : Node) :
    s.write ctx node.eraseInnerAliases = s.write ctx node ∧
    ∀ other : Node, other.eraseInnerAliases = node.eraseInnerAliases →
      s.write ctx other = s.write ctx node := by
  have herased : ∀ n : Node, s.write ctx n.eraseInnerAliases = s.write ctx n :=
    fun n => s.write_congr_spelled (n.spelled_eraseInnerAliases ctx)
  refine ⟨herased node, fun other h => ?_⟩
  calc s.write ctx other = s.write ctx other.eraseInnerAliases := (herased other).symm
    _ = s.write ctx node.eraseInnerAliases := by rw [h]
    _ = s.write ctx node := herased node

/-- A query whose inner aliases are all `label`: in the argument of a call that has an alias of its
own, and in all conditions and groupings of the query and of one that is nested in it. -/
theorem write_innerAliases_nested :
    let t : Table := .ofName "t"
    let a (label : String) : Expr := .column ((t.column "a" .any).aliased label)
    let total (label inner : String) : Expr := .call ((Call.sum (a inner)).aliased label)
    let rows (label : String) : Subquery := ⟨7, [.select false [a "b"], .fromTable t,
      .filter (.isNull (.composite " + " [a label, total label label]) false),
      .orderBy [⟨a "b", .asc⟩]]⟩
    let node (label : String) : Node := .query [.select false [total "s" label], .fromTable t,
      .join .left (.derived (rows label) "d") (some (.compare (a label) .eq (.verbatim "d.b"))),
      .filter (.memberOf (a label) (.subquery (rows label))), .groupBy [total label label],
      .having (.compareLiteral (total label label) .gt (.int 2)),
      .orderBy [⟨total "s" label, .desc⟩]]
    let nested := "(SELECT t.a AS b FROM t WHERE t.a + SUM(t.a) IS NULL ORDER BY b ASC)"
    let text := "SELECT SUM(t.a) AS s FROM t LEFT JOIN " ++ nested ++ " AS d ON t.a = d.b " ++
      "WHERE t.a IN " ++ nested ++ " GROUP BY SUM(t.a) HAVING SUM(t.a) > $1 ORDER BY s DESC"
    let write := (start .postgres).write .output
    (node "y").eraseInnerAliases = (node "x").eraseInnerAliases ∧
      (write (node "x").eraseInnerAliases).1 = text ∧ write (node "y") = write (node "x") := by
  intro t a total rows node nested text write
  have hsame : (node "y").eraseInnerAliases = (node "x").eraseInnerAliases := by rfl
  have h := (start .postgres).write_innerAliases .output (node "x")
  exact ⟨hsame, by decide +kernel, h.2 (node "y") hsame⟩

end Session
end SqlBuilder
