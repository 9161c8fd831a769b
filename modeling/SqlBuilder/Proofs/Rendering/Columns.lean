import SqlBuilder.Condition
import SqlBuilder.Proofs.Rendering.Parts

/-!
# The columns of a condition are the columns that are written

`Expr.columns` and `Condition.columns` go through the tree without writing anything. What is written
is the template, and the columns among its pieces that stand in no nested query, from left to right,
are its `outerColumns`. For expressions the two are the same list (`Expr.outerColumns_template`).

Conditions differ from that in one place. A test against an empty list is written without its left
side, which is one of its columns all the same. So the comparison goes leaf by leaf
(`Condition.leaves`): `Node.columns_written` says that an empty list is the only leaf that has
columns which are not written.

Nested queries are left out by counting the marks around them. That is sound because every template
is level: it leaves as many nested queries open as there were before it (`Clause.level_templates`,
one induction with all other kinds of nodes).
-/

namespace SqlBuilder

namespace Template

/-! ## Columns outside nested queries -/

/-- The columns among the pieces that stand in no nested query, when `depth` of them are open. -/
def columnsFrom (depth : Nat) : Template → List Column
  | [] => []
  | .column c _ :: t => if depth = 0 then c :: columnsFrom depth t else columnsFrom depth t
  | .enter :: t => columnsFrom (depth + 1) t
  | .leave :: t => columnsFrom (depth - 1) t
  | .text _ :: t | .slot _ :: t | .hidden _ :: t => columnsFrom depth t

/-- The columns that are written outside nested queries, from left to right. -/
def outerColumns (t : Template) : List Column := columnsFrom 0 t

/-- The template leaves as many nested queries open as there were before it. -/
structure Level (t : Template) : Prop where
  outside : ∀ u, columnsFrom 0 (t ++ u) = columnsFrom 0 t ++ columnsFrom 0 u
  inside : ∀ depth u, columnsFrom (depth + 1) (t ++ u) = columnsFrom (depth + 1) u

variable {s : String} {b : Binding} {t u : Template}

@[simp]
theorem outerColumns_nil : outerColumns [] = [] := rfl

@[simp]
theorem outerColumns_text : outerColumns (.text s :: t) = outerColumns t := rfl

@[simp]
theorem outerColumns_slot : outerColumns (.slot b :: t) = outerColumns t := rfl

@[simp]
theorem outerColumns_column {c : Column} {ctx : Context} :
    outerColumns (.column c ctx :: t) = c :: outerColumns t := rfl

@[simp]
theorem Level.nil : Level [] := ⟨fun _ => rfl, fun _ _ => rfl⟩

@[simp]
theorem level_text : Level (.text s :: t) ↔ Level t :=
  ⟨fun h => ⟨h.outside, h.inside⟩, fun h => ⟨h.outside, h.inside⟩⟩

@[simp]
theorem level_slot : Level (.slot b :: t) ↔ Level t :=
  ⟨fun h => ⟨h.outside, h.inside⟩, fun h => ⟨h.outside, h.inside⟩⟩

@[simp]
theorem level_column {c : Column} {ctx : Context} : Level (.column c ctx :: t) ↔ Level t :=
  ⟨fun h => ⟨fun u => List.tail_eq_of_cons_eq (h.outside u), h.inside⟩,
    fun h => ⟨fun u => congrArg (c :: ·) (h.outside u), h.inside⟩⟩

theorem outerColumns_append (ht : Level t) : outerColumns (t ++ u) =
    outerColumns t ++ outerColumns u := ht.outside u

theorem Level.append (ht : Level t) (hu : Level u) : Level (t ++ u) where
  outside v := by
    rw [List.append_assoc, ht.outside, ht.outside, hu.outside, List.append_assoc]
  inside depth v := by rw [List.append_assoc, ht.inside, hu.inside]

theorem Level.joined {separator : String} {ts : List Template} (h : ∀ t ∈ ts, Level t) :
    Level (joined separator ts) :=
  joined_induction .nil (fun ht hu => ht.append (level_text.mpr hu)) h

theorem outerColumns_joined {separator : String} :
    ∀ {ts : List Template}, (∀ t ∈ ts, Level t) →
      outerColumns (Template.joined separator ts) = (ts.map outerColumns).flatten
  | [], _ => rfl
  | [t], _ => by simp [Template.joined]
  | t :: v :: ts, h => by
    obtain ⟨ht, hts⟩ := List.forall_mem_cons.mp h
    change outerColumns (t ++ .text separator :: Template.joined separator (v :: ts)) = _
    rw [outerColumns_append ht, outerColumns_text, outerColumns_joined hts]
    rfl

/-- Between the marks of a nested query no column is an outer one. -/
theorem columnsFrom_enclosed (ht : Level t) (depth : Nat) (u : Template) :
    columnsFrom depth (.enter :: t ++ .leave :: u) = columnsFrom depth u :=
  ht.inside depth (.leave :: u)

theorem outerColumns_enclosed (ht : Level t) : outerColumns (.enter :: t ++ [.leave]) = [] :=
  columnsFrom_enclosed ht 0 []

theorem Level.enclosed (ht : Level t) : Level (.enter :: t ++ [.leave]) where
  outside u := by
    rw [List.append_assoc, List.singleton_append, columnsFrom_enclosed ht,
      columnsFrom_enclosed ht]
    rfl
  inside depth u := by
    rw [List.append_assoc, List.singleton_append, columnsFrom_enclosed ht]

theorem level_hide (t : Template) : Level (hide t) := by
  unfold hide
  induction t.bindings with
  | nil => exact .nil
  | cons b bs ih => exact ⟨ih.outside, ih.inside⟩

theorem level_of_mem_slots {vs : List Value} (h : t ∈ vs.map fun v => [.slot (.literal v)]) :
    Level t := by
  obtain ⟨v, -, rfl⟩ := List.mem_map.mp h
  exact level_slot.mpr .nil

theorem level_slots (vs : List Value) :
    Level (Template.joined ", " (vs.map fun v => [.slot (.literal v)])) :=
  Level.joined fun _ => level_of_mem_slots

theorem outerColumns_slots (vs : List Value) :
    outerColumns (Template.joined ", " (vs.map fun v => [.slot (.literal v)])) = [] := by
  rw [outerColumns_joined fun _ => level_of_mem_slots, List.map_map]
  simp [Function.comp_def]

theorem level_called {operand : Template} (ctx : Context) (name : String) (distinct : Bool)
    (alias? : Option String) (h : Level operand) :
    Level (called ctx name distinct alias? operand) := by
  cases alias? <;> cases ctx <;>
    simp [called, Context.aliasUse, h.append, (level_hide operand).append]

theorem level_enclose (set : Expr) (h : Level t) : Level (set.enclose t) := by
  unfold Expr.enclose
  split
  · exact h
  · simp [h.append]

end Template

/-! ## Every template is level -/

open Template

mutual

theorem Table.level_template : ∀ t : Table, t.template.Level
  | ⟨name, alias?, source⟩ => by
    cases alias? <;> simp [Table.template, source.level_template name, Level.append]

theorem Source.level_template (name : String) : ∀ s : Source, (s.template name).Level
  | .base => by simp [Source.template]
  | .derived query => by simp [Source.template, query.level_body.append]

theorem Subquery.level_body : ∀ q : Subquery, q.body.Level
  | ⟨_, clauses⟩ => by
    rw [Subquery.body]
    exact (Clause.level_templates clauses).enclosed

theorem Call.level_operand : ∀ f : Call, f.operand.Level
  | ⟨_, arg, _, _, _⟩ => by
    unfold Call.operand
    split
    · rename_i query _ harg
      cases harg
      exact query.level_body
    · exact arg.level_template .reference

theorem Expr.level_template (ctx : Context) : ∀ e : Expr, (e.template ctx).Level
  | .column _ | .param _ | .array _ _ | .tableRef _ => by simp [Expr.template]
  | .call f => by
    rw [Expr.template, Call.template_eq]
    exact level_called ctx f.name f.distinct f.alias? f.level_operand
  | .composite _ items => by
    rw [Expr.template]
    exact Level.joined (Expr.level_templates ctx items)
  | .subquery query => by simp [Expr.template, query.level_body.append]
  | .table t => by simp [Expr.template, t.level_template]

theorem Expr.level_templates (ctx : Context) :
    ∀ es : List Expr, ∀ t ∈ Expr.templates ctx es, t.Level
  | [] => by simp [Expr.templates]
  | e :: es => by simpa [Expr.templates] using ⟨e.level_template ctx, Expr.level_templates ctx es⟩

theorem Condition.level_template : ∀ c : Condition, c.template.Level
  | .compare left _ right => by
    simp [Condition.template, (left.level_template .reference).append,
      right.level_template .reference]
  | .compareLiteral left _ _ => by
    simp [Condition.template, (left.level_template .reference).append]
  | .inLiterals left values => by
    rw [Condition.template]
    split_ifs
    · simp
    · exact ((left.level_template .reference).append (level_text.mpr (level_slots values))).append
        (level_text.mpr .nil)
  | .memberOf left set | .compareSet left _ _ set => by
    simp [Condition.template, (left.level_template .reference).append,
      level_enclose set (set.level_template .reference)]
  | .isNull operand _ => by
    simp [Condition.template, (operand.level_template .reference).append]
  | .existsRows query => by simp [Condition.template, query.level_body.append]
  | .chain _ items => by
    rw [Condition.template]
    exact Level.joined (Condition.level_templates items)
  | .grouped inner => by simp [Condition.template, inner.level_template.append]

theorem Condition.level_templates :
    ∀ cs : List Condition, ∀ t ∈ Condition.templates cs, t.Level
  | [] => by simp [Condition.templates]
  | c :: cs => by simpa [Condition.templates] using ⟨c.level_template, Condition.level_templates cs⟩

theorem SortKey.level_template : ∀ k : SortKey, k.template.Level
  | ⟨expr, _⟩ => by simp [SortKey.template, (expr.level_template .orderBy).append]

theorem SortKey.level_templates :
    ∀ ks : List SortKey, ∀ t ∈ SortKey.templates ks, t.Level
  | [] => by simp [SortKey.templates]
  | k :: ks => by simpa [SortKey.templates] using ⟨k.level_template, SortKey.level_templates ks⟩

theorem Clause.level_template : ∀ c : Clause, c.template.Level
  | .select _ [] => by simp [Clause.template]
  | .select _ (item :: items) => by
    simp [Clause.template, Level.joined (Expr.level_templates .definition (item :: items))]
  | .fromTable t => by simp [Clause.template, t.level_template]
  | .join _ target none => by simp [Clause.template, target.level_template]
  | .join _ target (some condition) => by
    simp [Clause.template, target.level_template.append, condition.level_template]
  | .filter condition | .having condition => by simp [Clause.template, condition.level_template]
  | .groupBy items => by
    simp [Clause.template, Level.joined (Expr.level_templates .reference items)]
  | .orderBy keys => by simp [Clause.template, Level.joined (SortKey.level_templates keys)]
  | .limit _ | .offset _ => by simp [Clause.template]

theorem Clause.level_templates : ∀ cs : List Clause, (Clause.templates cs).Level
  | [] => by simp [Clause.templates]
  | c :: cs => by
    rw [Clause.templates]
    exact c.level_template.append (Clause.level_templates cs)

end

theorem outerColumns_body (q : Subquery) : outerColumns q.body = [] := by
  obtain ⟨id, clauses⟩ := q
  rw [Subquery.body]
  exact outerColumns_enclosed (Clause.level_templates clauses)

theorem outerColumns_table (t : Table) : outerColumns t.template = [] := by
  obtain ⟨name, alias?, source⟩ := t
  cases source <;> cases alias? <;>
    simp [Table.template, Source.template, outerColumns_append (Subquery.level_body _),
      outerColumns_body]

theorem outerColumns_enclose (set : Expr) {t : Template} (h : t.Level) :
    outerColumns (set.enclose t) = outerColumns t := by
  unfold Expr.enclose
  split
  · rfl
  · simp [outerColumns_append h]

/-! ## Columns of expressions -/

mutual

theorem Call.outerColumns_template :
    ∀ f : Call, (f.template .reference).outerColumns = f.columns
  | ⟨name, arg, distinct, bare, alias?⟩ => by
    have hoperand : (Call.operand ⟨name, arg, distinct, bare, alias?⟩).outerColumns =
        arg.columns := by
      unfold Call.operand
      split
      · rename_i query _ harg
        cases harg
        rw [outerColumns_body, Expr.columns]
      · exact arg.outerColumns_template
    have hlevel := Call.level_operand ⟨name, arg, distinct, bare, alias?⟩
    rw [Call.template_eq, Call.columns, ← hoperand]
    cases alias? <;> simp [called, Context.aliasUse, outerColumns_append hlevel]

/-- **The columns of an expression are those that are written for it** where names are used. -/
theorem Expr.outerColumns_template :
    ∀ e : Expr, (e.template .reference).outerColumns = e.columns
  | .column _ | .param _ | .array _ _ | .tableRef _ => by simp [Expr.template, Expr.columns]
  | .call f => by simp [Expr.template, Expr.columns, f.outerColumns_template]
  | .composite _ items => by
    rw [Expr.template, outerColumns_joined (Expr.level_templates .reference items),
      Expr.outerColumns_templates items, Expr.columns]
  | .subquery query => by
    simp [Expr.template, Expr.columns, outerColumns_append query.level_body, outerColumns_body]
  | .table t => by simp [Expr.template, Expr.columns, outerColumns_table]

theorem Expr.outerColumns_templates :
    ∀ es : List Expr,
      ((Expr.templates .reference es).map outerColumns).flatten = Expr.columnsOf es
  | [] => rfl
  | e :: es => by
    simp [Expr.templates, Expr.columnsOf, e.outerColumns_template, Expr.outerColumns_templates es]

end

/-! ## Columns of conditions -/

namespace Condition

mutual

/-- The conditions in a condition that are neither chains nor in parentheses, from left to right. -/
def leaves : Condition → List Condition
  | .chain _ items => leavesOf items
  | .grouped inner => inner.leaves
  | leaf => [leaf]

def leavesOf : List Condition → List Condition
  | [] => []
  | item :: items => item.leaves ++ leavesOf items

end

/-- A test against a list without literals. -/
def isEmptyList : Condition → Bool
  | .inLiterals _ values => values.isEmpty
  | _ => false

mutual

theorem columns_eq_leaves : ∀ c : Condition, c.columns = c.leaves.flatMap columns
  | .chain _ items => by simp [columns, leaves, columnsOf_eq_leaves items]
  | .grouped inner => by simp [columns, leaves, inner.columns_eq_leaves]
  | .compare _ _ _ | .compareLiteral _ _ _ | .inLiterals _ _ | .memberOf _ _
  | .compareSet _ _ _ _ | .isNull _ _ | .existsRows _ => by simp [leaves]

theorem columnsOf_eq_leaves : ∀ cs : List Condition, columnsOf cs = (leavesOf cs).flatMap columns
  | [] => rfl
  | c :: cs => by simp [columnsOf, leavesOf, c.columns_eq_leaves, columnsOf_eq_leaves cs]

end

end Condition

mutual

/-- **The columns that are written for a condition are those of its leaves**, empty lists apart. -/
theorem Condition.outerColumns_template : ∀ c : Condition,
    c.template.outerColumns = (c.leaves.filter (!·.isEmptyList)).flatMap Condition.columns
  | .compare left _ right => by
    simp [Condition.template, Condition.leaves, Condition.isEmptyList, Condition.columns,
      outerColumns_append (left.level_template .reference), left.outerColumns_template,
      right.outerColumns_template]
  | .compareLiteral left _ _ => by
    simp [Condition.template, Condition.leaves, Condition.isEmptyList, Condition.columns,
      outerColumns_append (left.level_template .reference), left.outerColumns_template]
  | .inLiterals left [] => by
    simp [Condition.template, Condition.leaves, Condition.isEmptyList]
  | .inLiterals left (v :: vs) => by
    rw [Condition.template, if_neg (by simp), List.append_assoc, List.cons_append,
      outerColumns_append (left.level_template .reference), outerColumns_text,
      outerColumns_append (level_slots (v :: vs)), outerColumns_slots, left.outerColumns_template]
    simp [Condition.leaves, Condition.isEmptyList, Condition.columns]
  | .memberOf left set | .compareSet left _ _ set => by
    simp [Condition.template, Condition.leaves, Condition.isEmptyList, Condition.columns,
      outerColumns_append (left.level_template .reference), left.outerColumns_template,
      outerColumns_enclose set (set.level_template .reference), set.outerColumns_template]
  | .isNull operand _ => by
    simp [Condition.template, Condition.leaves, Condition.isEmptyList, Condition.columns,
      outerColumns_append (operand.level_template .reference), operand.outerColumns_template]
  | .existsRows query => by
    simp [Condition.template, Condition.leaves, Condition.isEmptyList, Condition.columns,
      outerColumns_append query.level_body, outerColumns_body]
  | .chain _ items => by
    rw [Condition.template, outerColumns_joined (Condition.level_templates items),
      Condition.outerColumns_templates items, Condition.leaves]
  | .grouped inner => by
    simp [Condition.template, Condition.leaves, outerColumns_append inner.level_template,
      inner.outerColumns_template]

theorem Condition.outerColumns_templates : ∀ cs : List Condition,
    ((Condition.templates cs).map outerColumns).flatten =
      ((Condition.leavesOf cs).filter (!·.isEmptyList)).flatMap Condition.columns
  | [] => rfl
  | c :: cs => by
    simp [Condition.templates, Condition.leavesOf, c.outerColumns_template,
      Condition.outerColumns_templates cs]

end

/-! ## Nodes -/

/-- The columns that are written for a node outside nested queries, from left to right. -/
def Node.writtenColumns (ctx : Context) (node : Node) : List Column :=
  (node.template ctx).outerColumns

/-- **The columns of expressions and conditions are the columns that are written**, in the same
order and as often, outside nested queries. An expression is written where names are used, and a
condition anywhere.

For a condition with tests against empty lists there is more among its columns than is written.
Both go through the same leaves in the same order: the columns are those of all leaves, and what is
written are those of the leaves that are not such tests. The columns of such a test are those that
would be written for its left side. -/
theorem Node.columns_written :
    (∀ e : Expr, (Node.expr e).writtenColumns .reference = e.columns) ∧
    ∀ (ctx : Context) (c : Condition),
      ((∀ leaf ∈ c.leaves, leaf.isEmptyList = false) →
        (Node.condition c).writtenColumns ctx = c.columns) ∧
      c.columns = c.leaves.flatMap Condition.columns ∧
      (Node.condition c).writtenColumns ctx =
        (c.leaves.filter (!·.isEmptyList)).flatMap Condition.columns ∧
      ∀ leaf ∈ c.leaves, leaf.isEmptyList = true →
        ∃ left, leaf = .inLiterals left [] ∧
          leaf.columns = (Node.expr left).writtenColumns .reference := by
  refine ⟨Expr.outerColumns_template, fun ctx c => ⟨fun h => ?_, c.columns_eq_leaves,
    c.outerColumns_template, fun leaf _ h => ?_⟩⟩
  · have hall : c.leaves.filter (!·.isEmptyList) = c.leaves :=
      List.filter_eq_self.mpr fun leaf hleaf => by rw [h leaf hleaf, Bool.not_false]
    rw [c.columns_eq_leaves, ← hall]
    exact c.outerColumns_template
  · cases leaf with
    | inLiterals left values =>
      obtain rfl : values = [] := List.isEmpty_iff.mp h
      exact ⟨left, rfl, left.outerColumns_template.symm⟩
    | _ => exact absurd h Bool.false_ne_true

/-- Two tests against empty lists, one in parentheses, beside a call, a nested query that has
columns of its own, and a derived table. -/
theorem Node.columns_written_beside_empty_lists :
    let t : Table := .ofName "t"
    let a (name : String) : Expr := .column (t.column name .any)
    let rows : Subquery := ⟨7, [.select false [a "hidden"], .fromTable t,
      .filter (.memberOf (a "hidden") (.subquery ⟨8, [.select false [a "deeper"]]⟩))]⟩
    let filled : Condition := .chain .or [
      .memberOf (.composite " + " [a "x", .call (Call.sum (a "y"))]) (.subquery rows),
      .existsRows rows, .inLiterals (a "x") [.int 1]]
    let c : Condition := .chain .and [.inLiterals (a "u") [],
      .grouped (.chain .or [filled, .inLiterals (.composite ", " [a "v", a "w"]) []]),
      .compare (a "z") .eq (.table (.derived rows "d"))]
    let names (cs : List Column) := cs.map Column.name
    names c.columns = ["u", "x", "y", "x", "v", "w", "z"] ∧
      names ((Node.condition c).writtenColumns .output) = ["x", "y", "x", "z"] ∧
      (∀ leaf ∈ filled.leaves, leaf.isEmptyList = false) ∧
      (Node.condition filled).writtenColumns .output = filled.columns := by
  intro t a rows filled c names
  have hfilled : ∀ leaf ∈ filled.leaves, leaf.isEmptyList = false := by
    simp [filled, Condition.leaves, Condition.leavesOf, Condition.isEmptyList]
  refine ⟨by decide +kernel, ?_, hfilled, (Node.columns_written.2 .output filled).1 hfilled⟩
  rw [(Node.columns_written.2 .output c).2.2.1]
  decide +kernel

end SqlBuilder
