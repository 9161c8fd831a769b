import SqlBuilder.Proofs.Rendering.Parts
import SqlBuilder.Proofs.Text.Balanced

/-!
# Nodes without parentheses in their texts

A node is plain when none of the texts that it was built with has a parenthesis, the names of
tables, columns and functions, aliases, verbatim texts and separators, and no call that brings the
parentheses of a nested query puts `DISTINCT` between them. Literals are free: what is written for
them is a placeholder. What stands in a plain node is plain (`Node.Contains.isPlain`).

Texts that nobody sees do not count, such as the name of a table that a column refers to by alias.
-/

namespace SqlBuilder

/-! ## Nodes without parentheses in their texts -/

/-- The texts of the column have no parentheses. -/
def Column.isPlain (c : Column) : Bool := Text.isPlain c.qualifiedName && c.alias?.all Text.isPlain

mutual

/-- The table was built from texts without parentheses, and no call that writes a nested query in
its own parentheses puts `DISTINCT` there. -/
def Table.isPlain : Table → Bool
  | ⟨name, alias?, source⟩ => Text.isPlain name && alias?.all Text.isPlain && source.isPlain

def Source.isPlain : Source → Bool
  | .base => true
  | .derived query => query.isPlain

def Subquery.isPlain : Subquery → Bool
  | ⟨_, clauses⟩ => Clause.allPlain clauses

def Call.isPlain : Call → Bool
  | ⟨name, arg, distinct, bare, alias?⟩ =>
    Text.isPlain name && alias?.all Text.isPlain && !(bare && distinct) && arg.isPlain

def Expr.isPlain : Expr → Bool
  | .column c => c.isPlain
  | .param _ | .array _ _ => true
  | .call f => f.isPlain
  | .composite separator items => Text.isPlain separator && Expr.allPlain items
  | .subquery query => query.isPlain
  | .table t => t.isPlain
  | .tableRef t => Text.isPlain t.exposedName

def Expr.allPlain : List Expr → Bool
  | [] => true
  | item :: items => item.isPlain && Expr.allPlain items

def Condition.isPlain : Condition → Bool
  | .compare left _ right => left.isPlain && right.isPlain
  | .compareLiteral left _ _ => left.isPlain
  | .inLiterals left _ => left.isPlain
  | .memberOf left set => left.isPlain && set.isPlain
  | .compareSet left _ _ set => left.isPlain && set.isPlain
  | .isNull operand _ => operand.isPlain
  | .existsRows query => query.isPlain
  | .chain _ items => Condition.allPlain items
  | .grouped inner => inner.isPlain

def Condition.allPlain : List Condition → Bool
  | [] => true
  | item :: items => item.isPlain && Condition.allPlain items

def SortKey.isPlain : SortKey → Bool
  | ⟨expr, _⟩ => expr.isPlain

def SortKey.allPlain : List SortKey → Bool
  | [] => true
  | key :: keys => key.isPlain && SortKey.allPlain keys

def Clause.isPlain : Clause → Bool
  | .select _ items => Expr.allPlain items
  | .fromTable t => t.isPlain
  | .join _ target on? =>
    target.isPlain &&
      match on? with
      | some condition => condition.isPlain
      | none => true
  | .filter condition => condition.isPlain
  | .groupBy items => Expr.allPlain items
  | .having condition => condition.isPlain
  | .orderBy keys => SortKey.allPlain keys
  | .limit _ | .offset _ => true

def Clause.allPlain : List Clause → Bool
  | [] => true
  | clause :: clauses => clause.isPlain && Clause.allPlain clauses

end

def Node.isPlain : Node → Bool
  | expr e => e.isPlain
  | condition c => c.isPlain
  | sortKey k => k.isPlain
  | table t => t.isPlain
  | tableRef t => Text.isPlain t.exposedName
  | query clauses => Clause.allPlain clauses

/-! ## Texts -/

theorem Column.isPlain_text {c : Column} (h : c.isPlain = true) (ctx : Context) :
    Text.isPlain (c.text ctx) = true := by
  have hparts : Text.isPlain c.qualifiedName = true ∧ c.alias?.all Text.isPlain = true := by
    simpa [isPlain] using h
  unfold text
  split
  · rename_i label hlabel _
    have hlabel : Text.isPlain label = true := by simpa [hlabel] using hparts.2
    have has : Text.isPlain " AS " = true := by decide
    simp [hparts.1, hlabel, has]
  · rename_i label hlabel _
    simpa [hlabel] using hparts.2
  · exact hparts.1

@[simp]
theorem Comparison.isPlain_keyword (op : Comparison) : Text.isPlain op.keyword = true := by
  cases op <;> decide

@[simp]
theorem Quantifier.isPlain_keyword (q : Quantifier) : Text.isPlain q.keyword = true := by
  cases q <;> decide

@[simp]
theorem Connective.isPlain_keyword (k : Connective) : Text.isPlain k.keyword = true := by
  cases k <;> decide

@[simp]
theorem Direction.isPlain_keyword (d : Direction) : Text.isPlain d.keyword = true := by
  cases d <;> decide

@[simp]
theorem JoinKind.isPlain_keyword (k : JoinKind) : Text.isPlain k.keyword = true := by
  cases k <;> decide

/-! ## Parts -/

theorem Expr.allPlain_eq_all (es : List Expr) : Expr.allPlain es = es.all Expr.isPlain := by
  induction es with
  | nil => rfl
  | cons e es ih => rw [Expr.allPlain, ih, List.all_cons]

theorem Condition.allPlain_eq_all (cs : List Condition) :
    Condition.allPlain cs = cs.all Condition.isPlain := by
  induction cs with
  | nil => rfl
  | cons c cs ih => rw [Condition.allPlain, ih, List.all_cons]

theorem SortKey.allPlain_eq_all (ks : List SortKey) :
    SortKey.allPlain ks = ks.all SortKey.isPlain := by
  induction ks with
  | nil => rfl
  | cons k ks ih => rw [SortKey.allPlain, ih, List.all_cons]

theorem Clause.allPlain_eq_all (cs : List Clause) :
    Clause.allPlain cs = cs.all Clause.isPlain := by
  induction cs with
  | nil => rfl
  | cons c cs ih => rw [Clause.allPlain, ih, List.all_cons]

theorem Subquery.isPlain_eq (q : Subquery) : q.isPlain = Clause.allPlain q.clauses := by
  obtain ⟨id, clauses⟩ := q
  rw [isPlain]

section

variable {ctx c : Context} {node part : Node}

theorem Call.isPlain_of_mem_parts {f : Call} (h : f.isPlain = true)
    (hpart : (c, part) ∈ f.parts ctx) : part.isPlain = true := by
  have hargPart := (f.argPart_of_mem_parts hpart).2
  obtain ⟨name, arg, distinct, bare, alias?⟩ := f
  obtain ⟨-, harg⟩ : _ ∧ arg.isPlain = true := by
    simpa only [Call.isPlain, Bool.and_eq_true] using h
  unfold argPart at hargPart
  split at hargPart
  · rename_i query _ hquery
    cases hquery
    cases hargPart
    simpa only [Node.isPlain, Expr.isPlain, Subquery.isPlain_eq] using harg
  · cases hargPart
    exact harg

theorem Expr.isPlain_of_mem_parts {e : Expr} (h : e.isPlain = true)
    (hpart : (c, part) ∈ e.parts ctx) : part.isPlain = true := by
  cases e with
  | column | param | array | tableRef => exact absurd hpart List.not_mem_nil
  | call f => exact f.isPlain_of_mem_parts (by simpa only [Expr.isPlain] using h) hpart
  | composite separator items =>
    obtain ⟨item, hitem, heq⟩ := List.mem_map.mp hpart
    cases heq
    simp only [Expr.isPlain, Expr.allPlain_eq_all, Bool.and_eq_true, List.all_eq_true] at h
    exact h.2 item hitem
  | subquery query =>
    cases List.mem_singleton.mp hpart
    simpa only [Node.isPlain, Expr.isPlain, Subquery.isPlain_eq] using h
  | table t =>
    cases List.mem_singleton.mp hpart
    simpa only [Node.isPlain, Expr.isPlain] using h

theorem Condition.isPlain_of_mem_parts {k : Condition} (h : k.isPlain = true)
    (hpart : (c, part) ∈ k.parts) : part.isPlain = true := by
  cases k with
  | compare left _ right | memberOf left right | compareSet left _ _ right =>
    simp only [Condition.isPlain, Bool.and_eq_true] at h
    rcases List.mem_pair.mp hpart with heq | heq
    · cases heq
      exact h.1
    · cases heq
      exact h.2
  | compareLiteral left | isNull left | grouped left =>
    cases List.mem_singleton.mp hpart
    simpa only [Node.isPlain, Condition.isPlain] using h
  | inLiterals left values =>
    simp only [Condition.parts] at hpart
    split_ifs at hpart
    · exact absurd hpart List.not_mem_nil
    · cases List.mem_singleton.mp hpart
      simpa only [Node.isPlain, Condition.isPlain] using h
  | existsRows query =>
    cases List.mem_singleton.mp hpart
    simpa only [Node.isPlain, Condition.isPlain, Subquery.isPlain_eq] using h
  | chain connective items =>
    obtain ⟨item, hitem, heq⟩ := List.mem_map.mp hpart
    cases heq
    simp only [Condition.isPlain, Condition.allPlain_eq_all, List.all_eq_true] at h
    exact h item hitem

theorem Clause.isPlain_of_mem_parts {k : Clause} (h : k.isPlain = true)
    (hpart : (c, part) ∈ k.parts) : part.isPlain = true := by
  cases k with
  | select _ items | groupBy items =>
    obtain ⟨item, hitem, heq⟩ := List.mem_map.mp hpart
    cases heq
    simp only [Clause.isPlain, Expr.allPlain_eq_all, List.all_eq_true] at h
    exact h item hitem
  | orderBy keys =>
    obtain ⟨key, hkey, heq⟩ := List.mem_map.mp hpart
    cases heq
    simp only [Clause.isPlain, SortKey.allPlain_eq_all, List.all_eq_true] at h
    exact h key hkey
  | fromTable t | filter condition | having condition =>
    cases List.mem_singleton.mp hpart
    simpa only [Node.isPlain, Clause.isPlain] using h
  | join kind target on? =>
    cases on? with
    | none =>
      cases List.mem_singleton.mp hpart
      simpa only [Node.isPlain, Clause.isPlain, Bool.and_true] using h
    | some condition =>
      simp only [Clause.isPlain, Bool.and_eq_true] at h
      rcases List.mem_pair.mp hpart with heq | heq
      · cases heq
        exact h.1
      · cases heq
        exact h.2
  | limit | offset => exact absurd hpart List.not_mem_nil

/-- What stands in a plain node is plain. -/
theorem Node.isPlain_of_mem_parts (h : node.isPlain = true) (hpart : (c, part) ∈ node.parts ctx) :
    part.isPlain = true := by
  cases node with
  | expr e => exact e.isPlain_of_mem_parts h hpart
  | condition k => exact k.isPlain_of_mem_parts h hpart
  | sortKey k =>
    obtain ⟨e, direction⟩ := k
    cases List.mem_singleton.mp hpart
    simpa only [Node.isPlain, SortKey.isPlain] using h
  | table t =>
    obtain ⟨name, alias?, source⟩ := t
    cases source with
    | base => exact absurd hpart List.not_mem_nil
    | derived query =>
      cases List.mem_singleton.mp hpart
      simp only [Node.isPlain, Table.isPlain, Source.isPlain, Bool.and_eq_true] at h
      simpa only [Node.isPlain, Subquery.isPlain_eq] using h.2
  | tableRef t => exact absurd hpart List.not_mem_nil
  | query clauses =>
    obtain ⟨clause, hclause, hpart⟩ := List.mem_flatMap.mp hpart
    simp only [Node.isPlain, Clause.allPlain_eq_all, List.all_eq_true] at h
    exact clause.isPlain_of_mem_parts (h clause hclause) hpart

theorem Node.Contains.isPlain (hcontains : node.Contains ctx c part) (h : node.isPlain = true) :
    part.isPlain = true := by
  induction hcontains with
  | self => exact h
  | part _ hq ih => exact Node.isPlain_of_mem_parts ih hq

end

end SqlBuilder
