import Mathlib.Data.Set.Function
import SqlBuilder.Condition
import SqlBuilder.Proofs.Rendering.MapValues
import SqlBuilder.Proofs.Rendering.Placeholders

/-!
# Literals and the text of a statement

Two statements that come from one tree with different literals are compared. Nothing but equality of
the literals reaches the text: a function that keeps apart what is bound by value leaves it as it is
in every dialect, and maps the parameters one by one (`entries_bindAll_mapValue`). Any other
function can only make placeholders share a parameter, which the standard dialect does not show.
`statementIn_mapValues` says both for every node, so no part of a literal is ever part of a text.
-/

namespace SqlBuilder

/-- The values that the node binds by value. -/
def Node.boundValues (ctx : Context) (node : Node) : Set Value :=
  {v | .literal v ∈ node.literals ctx}

/-- The key of the mapped literal. An identity stays. -/
def Binding.Key.mapValue (f : Value → Value) : Key → Key
  | literal v => literal (f v)
  | node id => node id

variable {f : Value → Value} {bs : List Binding}

/-! ## Binding looks at equality of keys only -/

namespace Binding

theorem key_mapValue (b : Binding) : (b.mapValue f).key = b.key.mapValue f := by
  cases b <;> rfl

theorem value_mapValue (b : Binding) : (b.mapValue f).value = f b.value := by
  cases b <;> rfl

/-- Keys stay apart when the values among them do. -/
theorem Key.mapValue_injOn {s : Set Key} (hf : Set.InjOn f {v | .literal v ∈ s}) :
    Set.InjOn (mapValue f) s := by
  intro k hk l hl h
  cases k with
  | literal v =>
    cases l with
    | literal w => exact congrArg literal (hf hk hl (literal.inj h))
    | node id => exact Key.noConfusion h
  | node id =>
    cases l with
    | literal w => exact Key.noConfusion h
    | node id' => exact h

theorem firstNew_mapValue {s : Set Key} (hf : Set.InjOn (Key.mapValue f) s) {seen : List Key}
    (hseen : ∀ k ∈ seen, k ∈ s) (hbs : ∀ b ∈ bs, b.key ∈ s) :
    firstNew (seen.map (Key.mapValue f)) (bs.map (mapValue f)) =
      (firstNew seen bs).map (mapValue f) := by
  induction bs generalizing seen with
  | nil => rfl
  | cons b bs ih =>
    have hb : b.key ∈ s := hbs b List.mem_cons_self
    have hrest : ∀ c ∈ bs, c.key ∈ s := fun c hc => hbs c (List.mem_cons_of_mem _ hc)
    have hmem : (b.mapValue f).key ∈ seen.map (Key.mapValue f) ↔ b.key ∈ seen := by
      rw [key_mapValue]
      constructor
      · intro h
        obtain ⟨k, hk, he⟩ := List.mem_map.mp h
        rwa [← hf (hseen k hk) hb he]
      · exact List.mem_map_of_mem
    rw [List.map_cons, firstNew, firstNew]
    by_cases h : b.key ∈ seen
    · rw [if_pos h, if_pos (hmem.mpr h), ih hseen hrest]
    · have hkeys : seen.map (Key.mapValue f) ++ [(b.mapValue f).key] =
          (seen ++ [b.key]).map (Key.mapValue f) := by
        rw [key_mapValue, List.map_append, List.map_singleton]
      rw [if_neg h, if_neg (mt hmem.mp h), hkeys, ih _ hrest, List.map_cons]
      intro k hk
      rcases List.mem_append.mp hk with hk | hk
      · exact hseen k hk
      · exact List.mem_singleton.mp hk ▸ hb

end Binding

namespace Parameters

variable {t u : Parameters}

/-- A function that keeps the bound values apart acts on the parameters one by one. -/
theorem entries_bindAll_mapValue (hf : Set.InjOn f {v | .literal v ∈ bs}) :
    (empty.bindAll (bs.map (Binding.mapValue f))).entries =
      (empty.bindAll bs).entries.map (Binding.mapValue f) := by
  have hkeys : Set.InjOn (Binding.Key.mapValue f) {k | ∃ b ∈ bs, b.key = k} := by
    refine Binding.Key.mapValue_injOn (hf.mono ?_)
    rintro v ⟨b, hb, hkey⟩
    cases b with
    | literal w => exact Binding.Key.literal.inj hkey ▸ hb
    | node id w => exact Binding.Key.noConfusion hkey
  rw [entries_bindAll, entries_bindAll]
  exact Binding.firstNew_mapValue hkeys (fun k hk => absurd hk List.not_mem_nil)
    fun b hb => ⟨b, hb, rfl⟩

theorem keys_mapValue (h : u.entries = t.entries.map (Binding.mapValue f)) :
    u.keys = t.keys.map (Binding.Key.mapValue f) := by
  rw [keys, keys, h, List.map_map, List.map_map]
  exact List.map_congr_left fun b _ => b.key_mapValue

theorem values_mapValue (h : u.entries = t.entries.map (Binding.mapValue f)) :
    u.values = t.values.map f := by
  rw [values, values, h, List.map_map, List.map_map]
  exact List.map_congr_left fun b _ => b.value_mapValue

theorem position_mapValue (h : u.entries = t.entries.map (Binding.mapValue f)) {k : Binding.Key}
    (hk : k ∈ t.keys) : u.position (k.mapValue f) = t.position k := by
  obtain ⟨i, hi⟩ := List.mem_iff_getElem?.mp hk
  have hi' : u.keys[i]? = some (k.mapValue f) := by
    rw [keys_mapValue h, List.getElem?_map, hi]
    rfl
  rw [position_of_getElem? hi, position_of_getElem? hi']

end Parameters

/-! ## Tokens of the mapped node -/

theorem Node.literals_mapValues (f : Value → Value) (ctx : Context) (node : Node) :
    (node.mapValues f).literals ctx = (node.literals ctx).map (Binding.mapValue f) := by
  rw [← Node.bindings_template, node.template_mapValues, Template.bindings_mapValues,
    Node.bindings_template]

/-- In the standard dialect a piece is written alike whatever it binds, in any parameters. -/
theorem Piece.text_standard_mapValue (t u : Parameters) (piece : Piece) :
    ((piece.mapValue f).token u).text .standard = (piece.token t).text .standard := by
  cases piece with
  | column c ctx => exact c.text_mapValues f ctx
  | text | slot | hidden | enter | leave => rfl

/-- Tokens stay where ordinals do. -/
theorem Template.tokens_mapValues {t u : Parameters}
    (h : u.entries = t.entries.map (Binding.mapValue f)) {template : Template}
    (hkeys : ∀ b ∈ template.bindings, b.key ∈ t.keys) :
    (template.mapValues f).tokens u = template.tokens t := by
  unfold tokens mapValues
  rw [List.map_map]
  refine List.map_congr_left fun piece hpiece => ?_
  cases piece with
  | slot b =>
    have hkey := hkeys b (List.mem_filterMap.mpr ⟨_, hpiece, rfl⟩)
    rw [Function.comp_apply, Piece.mapValue, Piece.token, Piece.token, Binding.key_mapValue,
      Parameters.position_mapValue h hkey]
  | column c ctx => exact congrArg Token.verbatim (c.text_mapValues f ctx)
  | text | hidden | enter | leave => rfl

/-- **Literals reach the text through their equality alone.** Any function on the literals of a node
leaves its text in the standard dialect. One that keeps apart the values that the node binds by
value leaves its text in every dialect, and maps the parameters one by one. -/
theorem Node.statementIn_mapValues (f : Value → Value) (ctx : Context) (node : Node) :
    ((node.mapValues f).statementIn ctx .standard).sql = (node.statementIn ctx .standard).sql ∧
    (Set.InjOn f (node.boundValues ctx) → ∀ d : Dialect,
      (node.mapValues f).statementIn ctx d =
        ⟨(node.statementIn ctx d).sql, (node.statementIn ctx d).params.map f⟩) := by
  constructor
  · rw [Node.statementIn_eq, Node.statementIn_eq]
    refine congrArg String.join ?_
    rw [Node.tokens, Node.tokens, node.template_mapValues, Template.mapValues, Template.tokens,
      Template.tokens, List.map_map, List.map_map, List.map_map]
    exact List.map_congr_left fun piece _ => piece.text_standard_mapValue _ _
  · intro hf d
    have hentries := Parameters.entries_bindAll_mapValue hf
    have htokens : (node.mapValues f).tokens ctx = node.tokens ctx := by
      rw [Node.tokens, node.template_mapValues, node.literals_mapValues]
      exact Template.tokens_mapValues hentries fun b hb => Node.key_mem_keys_of_template hb
    rw [Node.statementIn_eq, Node.statementIn_eq, htokens, node.literals_mapValues]
    exact congrArg (Statement.mk _) (Parameters.values_mapValue hentries)

/-- A repeated value, a list of values and an array that repeats one of them, each value wrapped in
an array of its own: the placeholders stay. -/
theorem Node.statementIn_mapValues_wrapped :
    let x : Expr := .verbatim "x"
    let node : Node := .condition (.and (.and (.compareLiteral x .eq (.int 1))
      (.inLiterals x [.int 2, .int 1])) (.compareSet x .eq .any (.array 7 (.array [.int 1]))))
    let wrap : Value → Value := fun v => .array [v]
    Set.InjOn wrap (node.boundValues .output) ∧
      (node.mapValues wrap).statementIn .output .postgres =
        ⟨"x = $1 AND x IN ($2, $1) AND x = ANY($3)",
          [.array [.int 1], .array [.int 2], .array [.array [.int 1]]]⟩ := by
  intro x node wrap
  have hinj : Set.InjOn wrap (node.boundValues .output) := by
    intro v _ w _ h
    exact (List.cons.inj (Value.array.inj h)).1
  exact ⟨hinj, (node.statementIn_mapValues wrap .output).2 hinj .postgres⟩

end SqlBuilder
