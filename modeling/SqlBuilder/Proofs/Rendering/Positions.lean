import SqlBuilder.Condition
import SqlBuilder.Proofs.Rendering.Placeholders

/-!
# Placeholders stand in the order of the parameters

A driver that binds by position gives the `n`-th parameter to the `n`-th placeholder. Parameters are
numbered as their literals are bound, placeholders stand where they are written, and the two orders
could part in one place only: an aliased call in a sort key binds the literals of its argument and
writes none of them. `sortsByAlias` says where that happens, at any depth. Without it every visit is
written (`Node.allWritten`), so slots and literals are the same list, and the ordinals of the
placeholders are the positions of the literals' keys: each new one is the next number.
-/

namespace SqlBuilder

/-! ## Aliased calls in sort keys -/

mutual

/-- Whether an aliased call is written in a sort key, at any depth of the table. -/
def Table.sortsByAlias : Table → Bool
  | ⟨_, _, source⟩ => source.sortsByAlias

def Source.sortsByAlias : Source → Bool
  | .base => false
  | .derived query => query.sortsByAlias

def Subquery.sortsByAlias : Subquery → Bool
  | ⟨_, clauses⟩ => Clause.anySortsByAlias clauses

def Call.sortsByAlias (ctx : Context) : Call → Bool
  | ⟨_, arg, _, _, alias?⟩ =>
    (ctx = .orderBy && alias?.isSome) || arg.sortsByAlias .reference

/-- Whether the expression, written in a context, writes an aliased call in a sort key. -/
def Expr.sortsByAlias (ctx : Context) : Expr → Bool
  | .call call => call.sortsByAlias ctx
  | .composite _ items => Expr.anySortsByAlias ctx items
  | .subquery query => query.sortsByAlias
  | .table table => table.sortsByAlias
  | .column _ | .param _ | .array _ _ | .tableRef _ => false

def Expr.anySortsByAlias (ctx : Context) : List Expr → Bool
  | [] => false
  | item :: items => item.sortsByAlias ctx || Expr.anySortsByAlias ctx items

/-- As for expressions. The left side of a test against an empty list is not written. -/
def Condition.sortsByAlias : Condition → Bool
  | .compare left _ right => left.sortsByAlias .reference || right.sortsByAlias .reference
  | .compareLiteral left _ _ => left.sortsByAlias .reference
  | .inLiterals left values => !values.isEmpty && left.sortsByAlias .reference
  | .memberOf left set => left.sortsByAlias .reference || set.sortsByAlias .reference
  | .compareSet left _ _ set => left.sortsByAlias .reference || set.sortsByAlias .reference
  | .isNull operand _ => operand.sortsByAlias .reference
  | .existsRows query => query.sortsByAlias
  | .chain _ items => Condition.anySortsByAlias items
  | .grouped inner => inner.sortsByAlias

def Condition.anySortsByAlias : List Condition → Bool
  | [] => false
  | item :: items => item.sortsByAlias || Condition.anySortsByAlias items

def SortKey.sortsByAlias : SortKey → Bool
  | ⟨expr, _⟩ => expr.sortsByAlias .orderBy

def SortKey.anySortsByAlias : List SortKey → Bool
  | [] => false
  | key :: keys => key.sortsByAlias || SortKey.anySortsByAlias keys

def Clause.sortsByAlias : Clause → Bool
  | .select _ items => Expr.anySortsByAlias .definition items
  | .fromTable table => table.sortsByAlias
  | .join _ target none => target.sortsByAlias
  | .join _ target (some condition) => target.sortsByAlias || condition.sortsByAlias
  | .filter condition => condition.sortsByAlias
  | .groupBy items => Expr.anySortsByAlias .reference items
  | .having condition => condition.sortsByAlias
  | .orderBy keys => SortKey.anySortsByAlias keys
  | .limit _ | .offset _ => false

def Clause.anySortsByAlias : List Clause → Bool
  | [] => false
  | clause :: clauses => clause.sortsByAlias || Clause.anySortsByAlias clauses

end

/-- Whether the node, written in a context, writes an aliased call in a sort key. -/
def Node.sortsByAlias (ctx : Context) : Node → Bool
  | expr e => e.sortsByAlias ctx
  | condition c => c.sortsByAlias
  | sortKey k => k.sortsByAlias
  | table t => t.sortsByAlias
  | tableRef _ => false
  | query clauses => Clause.anySortsByAlias clauses

/-! ## All visits are written -/

/-- A placeholder is written for every visit. -/
def AllWritten (vs : List Visit) : Prop := ∀ v ∈ vs, v.written = true

theorem allWritten_nil : AllWritten [] := fun _ h => absurd h List.not_mem_nil

theorem allWritten_append {vs ws : List Visit} :
    AllWritten (vs ++ ws) ↔ AllWritten vs ∧ AllWritten ws := List.forall_mem_append

/-- Two parts in turn: where a test of both fails, so does the test of each. -/
theorem AllWritten.append_of_or {a b : Bool} {vs ws : List Visit} (h : (a || b) = false)
    (hvs : a = false → AllWritten vs) (hws : b = false → AllWritten ws) :
    AllWritten (vs ++ ws) := by
  rw [Bool.or_eq_false_iff] at h
  exact allWritten_append.mpr ⟨hvs h.1, hws h.2⟩

theorem allWritten_singleton {v : Visit} : AllWritten [v] ↔ v.written = true :=
  List.forall_mem_singleton

theorem allWritten_values (vs : List Value) : AllWritten (vs.map Visit.ofValue) := by
  intro v hv
  obtain ⟨value, -, rfl⟩ := List.mem_map.mp hv
  rfl

mutual

theorem Table.allWritten : ∀ t : Table, t.sortsByAlias = false → AllWritten t.visits
  | ⟨_, _, source⟩, h => source.allWritten h

theorem Source.allWritten : ∀ s : Source, s.sortsByAlias = false → AllWritten s.visits
  | .base, _ => allWritten_nil
  | .derived query, h => query.allWritten h

theorem Subquery.allWritten : ∀ q : Subquery, q.sortsByAlias = false → AllWritten q.visits
  | ⟨_, clauses⟩, h => Clause.allWritten_visitsOf clauses h

theorem Call.allWritten (ctx : Context) :
    ∀ c : Call, c.sortsByAlias ctx = false → AllWritten (c.visits ctx)
  | ⟨_, arg, _, _, alias?⟩, h => by
    rw [Call.sortsByAlias, Bool.or_eq_false_iff] at h
    have harg := arg.allWritten .reference h.2
    cases alias? with
    | none => exact harg
    | some label =>
      cases ctx with
      | orderBy => exact absurd h.1 (by simp)
      | definition | reference | output => exact harg

theorem Expr.allWritten (ctx : Context) :
    ∀ e : Expr, e.sortsByAlias ctx = false → AllWritten (e.visits ctx)
  | .column _, _ => allWritten_nil
  | .param _, _ => allWritten_singleton.mpr rfl
  | .array _ _, _ => allWritten_singleton.mpr rfl
  | .call call, h => call.allWritten ctx h
  | .composite _ items, h => Expr.allWritten_visitsOf ctx items h
  | .subquery query, h => query.allWritten h
  | .table table, h => table.allWritten h
  | .tableRef _, _ => allWritten_nil

theorem Expr.allWritten_visitsOf (ctx : Context) :
    ∀ es : List Expr, Expr.anySortsByAlias ctx es = false → AllWritten (Expr.visitsOf ctx es)
  | [], _ => allWritten_nil
  | e :: es, h => .append_of_or h (e.allWritten ctx) (Expr.allWritten_visitsOf ctx es)

theorem Condition.allWritten : ∀ c : Condition, c.sortsByAlias = false → AllWritten c.visits
  | .compare left _ right, h => .append_of_or h (left.allWritten _) (right.allWritten _)
  | .compareLiteral left _ _, h =>
    allWritten_append.mpr ⟨left.allWritten _ h, allWritten_singleton.mpr rfl⟩
  | .inLiterals _ [], _ => allWritten_nil
  | .inLiterals left (v :: vs), h =>
    allWritten_append.mpr ⟨left.allWritten _ h, allWritten_values (v :: vs)⟩
  | .memberOf left set, h | .compareSet left _ _ set, h =>
    .append_of_or h (left.allWritten _) (set.allWritten _)
  | .isNull operand _, h => operand.allWritten _ h
  | .existsRows query, h => query.allWritten h
  | .chain _ items, h => Condition.allWritten_visitsOf items h
  | .grouped inner, h => inner.allWritten h

theorem Condition.allWritten_visitsOf :
    ∀ cs : List Condition, Condition.anySortsByAlias cs = false → AllWritten (Condition.visitsOf cs)
  | [], _ => allWritten_nil
  | c :: cs, h => .append_of_or h c.allWritten (Condition.allWritten_visitsOf cs)

theorem SortKey.allWritten : ∀ k : SortKey, k.sortsByAlias = false → AllWritten k.visits
  | ⟨expr, _⟩, h => expr.allWritten .orderBy h

theorem SortKey.allWritten_visitsOf :
    ∀ ks : List SortKey, SortKey.anySortsByAlias ks = false → AllWritten (SortKey.visitsOf ks)
  | [], _ => allWritten_nil
  | k :: ks, h => .append_of_or h k.allWritten (SortKey.allWritten_visitsOf ks)

theorem Clause.allWritten : ∀ c : Clause, c.sortsByAlias = false → AllWritten c.visits
  | .select _ items, h => Expr.allWritten_visitsOf .definition items h
  | .fromTable table, h => table.allWritten h
  | .join _ target none, h => allWritten_append.mpr ⟨target.allWritten h, allWritten_nil⟩
  | .join _ target (some condition), h => .append_of_or h target.allWritten condition.allWritten
  | .filter condition, h => condition.allWritten h
  | .groupBy items, h => Expr.allWritten_visitsOf .reference items h
  | .having condition, h => condition.allWritten h
  | .orderBy keys, h => SortKey.allWritten_visitsOf keys h
  | .limit _, _ => allWritten_nil
  | .offset _, _ => allWritten_nil

theorem Clause.allWritten_visitsOf :
    ∀ cs : List Clause, Clause.anySortsByAlias cs = false → AllWritten (Clause.visitsOf cs)
  | [], _ => allWritten_nil
  | c :: cs, h => .append_of_or h c.allWritten (Clause.allWritten_visitsOf cs)

end

/-- Without an aliased call in a sort key, every literal of a node is written. -/
theorem Node.allWritten {ctx : Context} {node : Node} (h : node.sortsByAlias ctx = false) :
    AllWritten (node.visits ctx) := by
  cases node with
  | expr e => exact e.allWritten ctx h
  | condition c => exact c.allWritten h
  | sortKey k => exact k.allWritten h
  | table t => exact t.allWritten h
  | tableRef t => exact allWritten_nil
  | query clauses => exact Clause.allWritten_visitsOf clauses h

/-! ## Slots and placeholders -/

/-- The ordinal of a placeholder. -/
def Token.ordinal? : Token → Option Nat
  | verbatim _ => none
  | placeholder n => some n

/-- The literal that a placeholder is written for. -/
def Piece.slot? : Piece → Option Binding
  | slot b => some b
  | text _ | column _ _ | hidden _ | enter | leave => none

/-- The literals that placeholders are written for, from left to right. -/
def Template.slots (t : Template) : List Binding := t.filterMap Piece.slot?

/-- The ordinals of the placeholders of a node in a session of its own, from left to right. -/
def Node.ordinals (ctx : Context) (node : Node) : List Nat :=
  (node.tokens ctx).filterMap Token.ordinal?

theorem Template.ordinals_tokens (u : Parameters) (t : Template) :
    (t.tokens u).filterMap Token.ordinal? = t.slots.map fun b => u.position b.key := by
  unfold tokens slots
  rw [List.filterMap_map, List.map_filterMap]
  refine List.filterMap_congr fun piece _ => ?_
  cases piece <;> rfl

/-- Where everything is written, the slots are what is bound, in the same order. -/
theorem Template.slots_eq_bindings {t : Template} (h : AllWritten t.visits) :
    t.slots = t.bindings := by
  refine List.filterMap_congr fun piece hpiece => ?_
  cases piece with
  | hidden b =>
    have := h ⟨b, false⟩ (List.mem_filterMap.mpr ⟨_, hpiece, rfl⟩)
    exact absurd this (by simp)
  | text | column | slot | enter | leave => rfl

/-! ## First occurrences -/

/-- First occurrences are kept by a function that keeps the elements apart. -/
theorem eraseDups_map {α β : Type} [DecidableEq α] [DecidableEq β] {g : α → β} :
    ∀ {l : List α}, (∀ a ∈ l, ∀ b ∈ l, g a = g b → a = b) →
      (l.map g).eraseDups = l.eraseDups.map g
  | [], _ => rfl
  | a :: l, hg => by
    have hfilter : (l.map g).filter (fun b => !b == g a) =
        (l.filter fun b => !b == a).map g := by
      rw [List.filter_map]
      congr 1
      refine List.filter_congr fun b hb => ?_
      have : g b = g a ↔ b = a :=
        ⟨hg b (List.mem_cons_of_mem _ hb) a List.mem_cons_self, congrArg g⟩
      simp [this]
    have hrest : ∀ b ∈ l.filter (fun b => !b == a), ∀ c ∈ l.filter (fun b => !b == a),
        g b = g c → b = c := fun b hb c hc =>
      hg b (List.mem_cons_of_mem _ (List.mem_of_mem_filter hb)) c
        (List.mem_cons_of_mem _ (List.mem_of_mem_filter hc))
    rw [List.map_cons, List.eraseDups_cons, List.eraseDups_cons, hfilter, eraseDups_map hrest,
      List.map_cons]
termination_by l => l.length
decreasing_by exact Nat.lt_succ_of_le (List.length_filter_le _ _)

/-- The ordinals of literals bound in turn: each that is new is the next number. -/
theorem Parameters.eraseDups_positions (bs : List Binding) :
    (bs.map fun b => (empty.bindAll bs).position b.key).eraseDups =
      List.range' 1 (empty.bindAll bs).size := by
  have hmem : ∀ k ∈ bs.map Binding.key, k ∈ (empty.bindAll bs).keys := by
    intro k hk
    obtain ⟨b, hb, rfl⟩ := List.mem_map.mp hk
    exact key_mem_keys_bindAll hb
  have hinj : ∀ k ∈ bs.map Binding.key, ∀ l ∈ bs.map Binding.key,
      (empty.bindAll bs).position k = (empty.bindAll bs).position l → k = l :=
    fun k hk l _ => (position_inj (hmem k hk)).mp
  calc (bs.map fun b => (empty.bindAll bs).position b.key).eraseDups
      = ((bs.map Binding.key).map (empty.bindAll bs).position).eraseDups := by
        rw [List.map_map]
        rfl
    _ = (empty.bindAll bs).keys.map (empty.bindAll bs).position := by
      rw [eraseDups_map hinj, keys_bindAll_empty]
    _ = List.range' 1 (empty.bindAll bs).size := map_position_keys _

/-! ## Placeholders of a node -/

variable {ctx : Context} {node : Node}

theorem Node.slots_eq_literals (h : node.sortsByAlias ctx = false) :
    (node.template ctx).slots = node.literals ctx := by
  have hwritten : AllWritten (node.template ctx).visits := by
    rw [node.visits_template]
    exact node.allWritten h
  rw [Template.slots_eq_bindings hwritten, node.bindings_template]

theorem Node.ordinals_eq (h : node.sortsByAlias ctx = false) :
    node.ordinals ctx = (node.literals ctx).map fun b =>
      (Parameters.empty.bindAll (node.literals ctx)).position b.key := by
  rw [Node.ordinals, Node.tokens, Template.ordinals_tokens, Node.slots_eq_literals h]

/-- **Placeholders stand in the order of the parameters**, for every node without an aliased call in
a sort key. Its text is that of its tokens, each placeholder written `?`, and the ordinals of its
placeholders from left to right are, first occurrences only, the numbers from 1 to the number of
parameters. If no two literals have the same key, that is what they are, one for each parameter, and
the literals that placeholders are written for are the literals in the order in which they are
bound, with the parameters as their values. -/
theorem Node.statementIn_positional (node : Node) (ctx : Context)
    (h : node.sortsByAlias ctx = false) :
    let q := node.statementIn ctx .standard
    q.sql = String.join ((node.tokens ctx).map (Token.text .standard)) ∧
    (∀ n, Token.text .standard (.placeholder n) = "?") ∧
    (node.ordinals ctx).eraseDups = List.range' 1 q.paramCount ∧
    (((node.literals ctx).map Binding.key).Nodup →
      node.ordinals ctx = List.range' 1 q.paramCount ∧
      (node.template ctx).slots = node.literals ctx ∧
      (node.template ctx).slots.map Binding.value = q.params) := by
  intro q
  have hcount : q.paramCount = (Parameters.empty.bindAll (node.literals ctx)).size :=
    Node.paramCount_eq
  have hq : q = ⟨String.join ((node.tokens ctx).map (Token.text .standard)),
      (Parameters.empty.bindAll (node.literals ctx)).values⟩ := node.statementIn_eq ctx .standard
  refine ⟨by rw [hq], fun _ => rfl, ?_, fun hnodup => ?_⟩
  · rw [hcount, Node.ordinals_eq h, Parameters.eraseDups_positions]
  · have hentries := Parameters.entries_bindAll_of_nodup hnodup
    refine ⟨?_, Node.slots_eq_literals h, ?_⟩
    · rw [hcount, ← Parameters.map_position_keys, Node.ordinals_eq h, Parameters.keys, hentries,
        List.map_map]
      rfl
    · rw [Node.slots_eq_literals h, hq, Parameters.values, hentries]

/-- Literals in a derived table, in a list and in a call that a sort key writes out. -/
theorem Node.statementIn_positional_nested :
    let query : Subquery := ⟨1, [.select false [], .fromTable (.ofName "t"),
      .filter (.compareLiteral (.verbatim "x") .eq (.int 1))]⟩
    let node : Node := .query [.select false [], .fromTable (.derived query "u"),
      .filter (.inLiterals (.verbatim "y") [.int 2, .text "a"]),
      .orderBy [⟨.call (Call.unary "F" (.array 7 (.array [.int 1]))), .asc⟩]]
    node.sortsByAlias .output = false ∧
      ((node.literals .output).map Binding.key).Nodup ∧
      node.ordinals .output = [1, 2, 3, 4] ∧
      node.statementIn .output .standard =
        ⟨"SELECT * FROM (SELECT * FROM t WHERE x = ?) AS u WHERE y IN (?, ?) ORDER BY F(?) ASC",
          [.int 1, .int 2, .text "a", .array [.int 1]]⟩ := by
  intro query node
  have hnodup : ((node.literals .output).map Binding.key).Nodup := by decide
  have hsql : (node.statementIn .output .standard).sql =
      "SELECT * FROM (SELECT * FROM t WHERE x = ?) AS u WHERE y IN (?, ?) ORDER BY F(?) ASC" := by
    decide
  have h := node.statementIn_positional .output rfl
  obtain ⟨hordinals, -, hparams⟩ := h.2.2.2 hnodup
  exact ⟨rfl, hnodup, hordinals, congrArg₂ Statement.mk hsql hparams.symm⟩

end SqlBuilder
