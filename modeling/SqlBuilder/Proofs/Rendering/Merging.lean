import SqlBuilder.Condition
import SqlBuilder.Proofs.Rendering.Placeholders

/-!
# Writing in place and writing apart

A node can be written in a session that has parameters already, or in a session of its own whose
parameters are merged into the others afterwards. Both leave the same parameters
(`write_snd_eq_merge`), for binding takes first occurrences and so does merging. The texts differ
in their ordinals only: `renumber` says which ordinal of the merged parameters stands for an
ordinal of the node apart, and `tokens_renumber` that the tokens follow it. `write_merge` puts both
together, and adds the same for a list of nodes.
-/

namespace SqlBuilder

/-- The ordinal in `u` of what has ordinal `n` in `t`. An ordinal that `t` does not have stays. -/
def Parameters.renumber (t u : Parameters) (n : Nat) : Nat :=
  match t.keys[n - 1]? with
  | some k => u.position k
  | none => n

/-- The token with another ordinal. -/
def Token.renumber (ρ : Nat → Nat) : Token → Token
  | verbatim s => verbatim s
  | placeholder n => placeholder (ρ n)

/-- Writes nodes one after the other, each in its context, and gives the session they leave. -/
def Session.writeAll (s : Session) (parts : List (Context × Node)) : Session :=
  parts.foldl (fun s part => (s.write part.1 part.2).2) s

variable {t u : Parameters} {k : Binding.Key}

/-! ## Ordinals before and after merging -/

theorem Parameters.renumber_position (h : k ∈ t.keys) :
    t.renumber u (t.position k) = u.position k := by
  have hkey : t.keys[t.position k - 1]? = some k := List.getElem?_idxOf h
  rw [renumber, hkey]

/-- After merging `u` into `t`, every entry of `u` has the ordinal that `renumber` says. -/
theorem Parameters.ordinal?_merge {i : Nat} {b : Binding} (h : u.entries[i]? = some b) :
    (t.merge u).ordinal? b.key = some (u.renumber (t.merge u) (i + 1)) := by
  have hkey : u.keys[i]? = some b.key := by
    rw [keys, List.getElem?_map, h]
    rfl
  have hmem : b.key ∈ (t.merge u).keys := key_mem_keys_bindAll (List.mem_of_getElem? h)
  rw [renumber, Nat.add_sub_cancel, hkey]
  exact ordinal?_eq_some_position hmem

/-- A template filled from other parameters has the same tokens, renumbered. -/
theorem Template.tokens_renumber {template : Template}
    (h : ∀ b ∈ template.bindings, b.key ∈ t.keys) :
    template.tokens u = (template.tokens t).map (Token.renumber (t.renumber u)) := by
  unfold tokens
  rw [List.map_map]
  refine List.map_congr_left fun piece hpiece => ?_
  cases piece with
  | slot b =>
    have hkey := h b (List.mem_filterMap.mpr ⟨_, hpiece, rfl⟩)
    rw [Function.comp_apply, Piece.token, Piece.token, Token.renumber,
      Parameters.renumber_position hkey]
  | text | column | hidden | enter | leave => rfl

/-! ## Sessions -/

namespace Session

/-- A node in a session of its own leaves its literals and nothing else. -/
theorem params_write_start (d : Dialect) (ctx : Context) (node : Node) :
    ((start d).write ctx node).2.params = Parameters.empty.bindAll (node.literals ctx) := by
  rw [write_eq]
  rfl

theorem write_snd_eq_merge (s : Session) (ctx : Context) (node : Node) :
    (s.write ctx node).2 =
      { s with params := s.params.merge ((start s.dialect).write ctx node).2.params } := by
  rw [params_write_start, Parameters.merge_bindAll, write_eq]

theorem params_writeAll (s : Session) (parts : List (Context × Node)) :
    (s.writeAll parts).params =
      parts.foldl (fun t part => t.merge ((start s.dialect).write part.1 part.2).2.params)
        s.params := by
  induction parts generalizing s with
  | nil => rfl
  | cons part parts ih =>
    show ((s.write part.1 part.2).2.writeAll parts).params = _
    rw [ih, write_snd_eq_merge]
    rfl

/-- **Writing in place is writing apart, merging and renumbering.**

For every node, context and session, writing in place leaves the parameters from before merged with
those that the node leaves in a session of its own. Its text is the text of the node apart with the
placeholder of each ordinal `n` replaced by that of `ρ n`, which is the ordinal after merging of the
entry with ordinal `n` apart. Nodes written one after the other leave what merging the parameters
of each apart leaves, in the same order. -/
theorem write_merge (s : Session) :
    (∀ (ctx : Context) (node : Node),
      let apart := (start s.dialect).write ctx node
      let merged := s.params.merge apart.2.params
      let ρ := apart.2.params.renumber merged
      (s.write ctx node).2 = { s with params := merged } ∧
      apart.1 = String.join ((node.tokens ctx).map (Token.text s.dialect)) ∧
      (s.write ctx node).1 =
        String.join (((node.tokens ctx).map (Token.renumber ρ)).map (Token.text s.dialect)) ∧
      (∀ n, Token.placeholder n ∈ node.tokens ctx → 1 ≤ n ∧ n ≤ apart.2.params.size) ∧
      ∀ i b, apart.2.params.entries[i]? = some b → merged.ordinal? b.key = some (ρ (i + 1))) ∧
    ∀ parts : List (Context × Node),
      (s.writeAll parts).params =
        parts.foldl (fun t part => t.merge ((start s.dialect).write part.1 part.2).2.params)
          s.params := by
  refine ⟨fun ctx node => ?_, s.params_writeAll⟩
  intro apart merged ρ
  have hapart : apart.2.params = Parameters.empty.bindAll (node.literals ctx) :=
    params_write_start s.dialect ctx node
  have hmerged : merged = s.params.bindAll (node.literals ctx) := by
    rw [← Parameters.merge_bindAll, ← hapart]
  have htokens : (node.template ctx).tokens merged = (node.tokens ctx).map (Token.renumber ρ) := by
    show _ = (node.tokens ctx).map (Token.renumber (apart.2.params.renumber merged))
    rw [hapart]
    exact Template.tokens_renumber fun b hb => Node.key_mem_keys_of_template hb
  refine ⟨s.write_snd_eq_merge ctx node, ?_, ?_, ?_, ?_⟩
  · exact congrArg Prod.fst ((start s.dialect).write_eq ctx node)
  · rw [← htokens, hmerged, write_eq]
  · intro n hn
    obtain ⟨v, hv, -, rfl⟩ := Node.placeholder_mem_tokens.mp hn
    rw [hapart]
    exact ⟨Parameters.position_pos, Parameters.position_le_size (Node.key_mem_keys hv)⟩
  · intro i b hb
    exact Parameters.ordinal?_merge hb

/-- A session that knows one value of the node, and its array with another value: apart the node
counts from 1; in place only what is new gets a new ordinal, and the array keeps its old value. -/
theorem write_merge_renumbered :
    let s : Session := ⟨.postgres, Parameters.empty.bindAll [.literal (.int 1), .node 7 .null]⟩
    let x : Expr := .verbatim "x"
    let node : Node := .condition (.and (.inLiterals x [.int 2, .int 1])
      (.compareSet x .eq .any (.array 7 (.array [.int 1]))))
    ((start .postgres).write .output node).1 = "x IN ($1, $2) AND x = ANY($3)" ∧
      (s.write .output node).1 = "x IN ($3, $1) AND x = ANY($2)" ∧
      (s.write .output node).2.params.values = [.int 1, .null, .int 2] := by
  refine ⟨?_, ?_, ?_⟩
  · exact ((write_merge (start .postgres)).1 .output _).2.1.trans (by decide)
  · exact ((write_merge _).1 .output _).2.2.1.trans (by decide)
  · rw [((write_merge _).1 .output _).1]
    decide

end Session
end SqlBuilder
