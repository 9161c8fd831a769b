import SqlBuilder.Call
import SqlBuilder.Proofs.Rendering.FirstSeen
import SqlBuilder.Query

/-!
# Which parameters have a placeholder

Every placeholder of a statement refers to one of its parameters. The converse needs a condition:
a sort key writes the alias of a call in place of the call and binds the literals of its argument
all the same. A parameter has a placeholder exactly when its literal is also written somewhere
(`Node.Shown`), and `statement_placeholders` says so for every node.
-/

namespace SqlBuilder

/-- The node in a session of its own, as tokens. -/
def Node.tokens (ctx : Context) (node : Node) : List Token :=
  (node.template ctx).tokens (Parameters.empty.bindAll (node.literals ctx))

/-- Every literal that the node binds is written somewhere in it, itself or an equal one. -/
def Node.Shown (ctx : Context) (node : Node) : Prop :=
  ∀ v ∈ node.visits ctx, ∃ w ∈ node.visits ctx, w.written = true ∧ w.binding.key = v.binding.key

variable {ctx : Context} {d : Dialect} {node : Node} {u : Parameters} {n : Nat}

/-! ## Placeholders are written visits -/

theorem Template.slot_mem_iff {t : Template} {b : Binding} :
    Piece.slot b ∈ t ↔ ⟨b, true⟩ ∈ t.visits := by
  rw [Template.visits, List.mem_filterMap]
  constructor
  · intro h
    exact ⟨_, h, rfl⟩
  · rintro ⟨piece, hmem, hvisit⟩
    cases piece <;> simp_all [Piece.visit?]

theorem Template.placeholder_mem_tokens {t : Template} :
    Token.placeholder n ∈ t.tokens u ↔
      ∃ v ∈ t.visits, v.written = true ∧ u.position v.binding.key = n := by
  rw [Template.tokens, List.mem_map]
  constructor
  · rintro ⟨piece, hmem, htoken⟩
    cases piece with
    | slot b => exact ⟨_, Template.slot_mem_iff.mp hmem, rfl, Token.placeholder.inj htoken⟩
    | text | column | hidden | enter | leave => exact Token.noConfusion htoken
  · rintro ⟨⟨b, written⟩, hmem, rfl, rfl⟩
    exact ⟨.slot b, Template.slot_mem_iff.mpr hmem, rfl⟩

/-- A placeholder is written for the ordinals of the literals that are written. -/
theorem Node.placeholder_mem_tokens :
    Token.placeholder n ∈ node.tokens ctx ↔
      ∃ v ∈ node.visits ctx, v.written = true ∧
        (Parameters.empty.bindAll (node.literals ctx)).position v.binding.key = n := by
  unfold Node.tokens
  rw [Template.placeholder_mem_tokens, node.visits_template]

theorem Node.statementIn_eq (node : Node) (ctx : Context) (d : Dialect) :
    node.statementIn ctx d =
      ⟨String.join ((node.tokens ctx).map (Token.text d)),
        (Parameters.empty.bindAll (node.literals ctx)).values⟩ := by
  have h := (Session.start d).write_eq ctx node
  unfold Node.statementIn
  rw [h]
  rfl

theorem Node.paramCount_eq :
    (node.statementIn ctx d).paramCount = (Parameters.empty.bindAll (node.literals ctx)).size := by
  rw [node.statementIn_eq]
  exact List.length_map _

/-! ## Parameters without a placeholder -/

theorem Node.key_mem_keys {v : Visit} (h : v ∈ node.visits ctx) :
    v.binding.key ∈ (Parameters.empty.bindAll (node.literals ctx)).keys :=
  Parameters.key_mem_keys_bindAll (List.mem_map_of_mem h)

/-- In a session of its own a node's template finds every key it looks up. -/
theorem Node.key_mem_keys_of_template {b : Binding} (h : b ∈ (node.template ctx).bindings) :
    b.key ∈ (Parameters.empty.bindAll (node.literals ctx)).keys := by
  rw [node.bindings_template] at h
  exact Parameters.key_mem_keys_bindAll h

/-- In a session of its own a node's parameters are its literals. -/
theorem Node.exists_visit_of_mem_keys {k : Binding.Key}
    (h : k ∈ (Parameters.empty.bindAll (node.literals ctx)).keys) :
    ∃ v ∈ node.visits ctx, v.binding.key = k := by
  rcases Parameters.mem_keys_bindAll.mp h with hold | ⟨b, hb, rfl⟩
  · exact absurd hold List.not_mem_nil
  · obtain ⟨v, hv, rfl⟩ := List.mem_map.mp hb
    exact ⟨v, hv, rfl⟩

/-- Every ordinal has a placeholder exactly when every literal is written somewhere. -/
theorem Node.placeholders_cover_iff_shown :
    (∀ n, 1 ≤ n → n ≤ (node.statementIn ctx d).paramCount →
      Token.placeholder n ∈ node.tokens ctx) ↔ node.Shown ctx := by
  constructor
  · intro h v hv
    have hkey := Node.key_mem_keys hv
    have hle := Parameters.position_le_size hkey
    rw [← Node.paramCount_eq (d := d)] at hle
    obtain ⟨w, hw, hwritten, hpos⟩ :=
      Node.placeholder_mem_tokens.mp (h _ Parameters.position_pos hle)
    exact ⟨w, hw, hwritten, (Parameters.position_inj (Node.key_mem_keys hw)).mp hpos⟩
  · intro h n hpos hle
    rw [Node.paramCount_eq] at hle
    obtain ⟨k, hk, rfl⟩ := Parameters.exists_position_eq hpos hle
    obtain ⟨v, hv, rfl⟩ := Node.exists_visit_of_mem_keys hk
    obtain ⟨w, hw, hwritten, hkey⟩ := h v hv
    exact Node.placeholder_mem_tokens.mpr ⟨w, hw, hwritten, by rw [hkey]⟩

theorem Node.hasParams_iff :
    (node.statementIn ctx d).hasParams = true ↔ ∃ v, v ∈ node.visits ctx := by
  have hcount : (node.statementIn ctx d).hasParams = true ↔
      0 < (node.statementIn ctx d).paramCount := by
    rw [Statement.hasParams, Statement.paramCount, List.length_pos_iff, Bool.not_eq_true',
      List.isEmpty_eq_false_iff]
  rw [hcount, Node.paramCount_eq, ← Parameters.length_keys, List.length_pos_iff_exists_mem]
  constructor
  · rintro ⟨k, hk⟩
    obtain ⟨v, hv, -⟩ := Node.exists_visit_of_mem_keys hk
    exact ⟨v, hv⟩
  · rintro ⟨v, hv⟩
    exact ⟨_, Node.key_mem_keys hv⟩

/-- **Placeholders and parameters of a statement.** The text of a node in a session of its own is
the text of its tokens, whose placeholders all refer to parameters. They cover all parameters
exactly when every literal is written somewhere in the node, and having parameters means having a
placeholder exactly when the node has no literals or writes one of them. -/
theorem Node.statement_placeholders (node : Node) (d : Dialect) :
    (node.statement d).sql = String.join ((node.tokens .output).map (Token.text d)) ∧
    (∀ n, Token.placeholder n ∈ node.tokens .output →
      1 ≤ n ∧ n ≤ (node.statement d).paramCount) ∧
    ((∀ n, Token.placeholder n ∈ node.tokens .output ↔
        1 ≤ n ∧ n ≤ (node.statement d).paramCount) ↔ node.Shown .output) ∧
    (((node.statement d).hasParams = true ↔ ∃ n, Token.placeholder n ∈ node.tokens .output) ↔
      (node.visits .output = [] ∨ ∃ v ∈ node.visits .output, v.written = true)) := by
  have hrange : ∀ n, Token.placeholder n ∈ node.tokens .output →
      1 ≤ n ∧ n ≤ (node.statement d).paramCount := by
    intro n hn
    obtain ⟨v, hv, -, rfl⟩ := Node.placeholder_mem_tokens.mp hn
    refine ⟨Parameters.position_pos, ?_⟩
    unfold Node.statement
    rw [Node.paramCount_eq]
    exact Parameters.position_le_size (Node.key_mem_keys hv)
  have hwritten : (∃ n, Token.placeholder n ∈ node.tokens .output) ↔
      ∃ v ∈ node.visits .output, v.written = true := by
    constructor
    · rintro ⟨n, hn⟩
      obtain ⟨v, hv, hw, -⟩ := Node.placeholder_mem_tokens.mp hn
      exact ⟨v, hv, hw⟩
    · rintro ⟨v, hv, hw⟩
      exact ⟨_, Node.placeholder_mem_tokens.mpr ⟨v, hv, hw, rfl⟩⟩
  refine ⟨?_, hrange, ?_, ?_⟩
  · unfold Node.statement
    rw [node.statementIn_eq]
  · rw [← Node.placeholders_cover_iff_shown (d := d)]
    constructor
    · intro h n hpos hle
      exact (h n).mpr ⟨hpos, hle⟩
    · intro h n
      exact ⟨hrange n, fun hn => h n hn.1 hn.2⟩
  · rw [hwritten, Node.statement, Node.hasParams_iff]
    constructor
    · intro h
      rcases hvisits : node.visits .output with _ | ⟨v, vs⟩
      · exact .inl rfl
      · rw [← hvisits]
        exact .inr (h.mp ⟨v, by simp [hvisits]⟩)
    · rintro (h | h)
      · simp [h]
      · exact ⟨fun _ => h, fun ⟨v, hv, _⟩ => ⟨v, hv⟩⟩

/-- A query built step by step whose only parameter has no placeholder: the sort key is written as
the alias of the call, and the literal in the call's argument is bound. -/
theorem aliased_sort_key_without_placeholder :
    let key : SortKey := ⟨.call ((Call.unary "F" (.param (.int 1))).aliased "f"), .asc⟩
    let clauses : List Clause := [.select false [], .fromTable (.ofName "t"), .orderBy [key]]
    Query.start.steps [.selectAll false, .fromTable (.ofName "t"), .orderBy [key]] =
        .ok ⟨.orderBy, clauses⟩ ∧
      (Node.query clauses).statement .postgres = ⟨"SELECT * FROM t ORDER BY f ASC", [.int 1]⟩ ∧
      ((Node.query clauses).statement .postgres).hasParams = true ∧
      ∀ n, Token.placeholder n ∉ (Node.query clauses).tokens .output := by
  refine ⟨rfl, rfl, rfl, fun n hn => ?_⟩
  obtain ⟨v, hv, hwritten, -⟩ := Node.placeholder_mem_tokens.mp hn
  rcases List.mem_singleton.mp hv with rfl
  exact absurd hwritten (by decide)

end SqlBuilder
