import SqlBuilder.Condition
import SqlBuilder.Proofs.Rendering.FirstSeen
import SqlBuilder.Proofs.Rendering.Parts

/-!
# Writing a node again

Whatever is done in a session only adds parameters at the end (`continues_acts`). A node that was
written in a session finds all its literals there from then on, under the ordinals that they had, so
writing it again gives the same text and adds nothing (`write_of_continues`).

Parts of a node are written one after the other in one session. So this holds of them too: wherever
a nested query or a table stands in a node, it has the text that the session would write for it
afterwards (`write_part`). `write_again` states both.
-/

namespace SqlBuilder

/-- What can be done in a session. -/
inductive Session.Act where
  | bind (value : Value)
  | bindNode (id : Nat) (value : Value)
  | write (ctx : Context) (node : Node)

/-- Nodes that rows come from: queries, nested or not, and tables. -/
def Node.IsRows : Node → Prop
  | expr (.subquery _) | expr (.table _) | table _ | query _ => True
  | _ => False

/-- Rows are written alike in every context. -/
theorem Node.IsRows.template_eq {node : Node} (h : node.IsRows) (c c' : Context) :
    node.template c = node.template c' := by
  cases node with
  | expr e =>
    cases e with
    | subquery | table => simp only [Node.template, Expr.template]
    | _ => exact absurd h id
  | table | query => rfl
  | condition | sortKey | tableRef => exact absurd h id

namespace Session

variable {s s' s'' : Session} {ctx c : Context} {node part : Node} {before : Template}

/-- The text that an act gives, and the session after it. -/
def act (s : Session) : Act → String × Session
  | .bind v => s.placeholder v
  | .bindNode id v => s.nodePlaceholder id v
  | .write ctx node => s.write ctx node

/-- The session after acts in order. -/
def acts (s : Session) (as : List Act) : Session := as.foldl (fun s a => (s.act a).2) s

/-! ## Sessions only grow -/

/-- A session that another one has become: in the same dialect, with parameters added at the end. -/
structure Continues (s s' : Session) : Prop where
  dialect : s.dialect = s'.dialect
  params : s.params.entries <+: s'.params.entries

theorem Continues.refl (s : Session) : s.Continues s := ⟨rfl, List.prefix_refl _⟩

theorem Continues.trans (h : s.Continues s') (h' : s'.Continues s'') : s.Continues s'' :=
  ⟨h.dialect.trans h'.dialect, h.params.trans h'.params⟩

theorem continues_fill (s : Session) (t : Template) : s.Continues (s.fill t).2 := by
  refine ⟨rfl, ?_⟩
  unfold fill
  rw [Template.write_snd]
  exact Parameters.prefix_bindAll s.params t.bindings

/-- **An act only adds parameters**, at the end. -/
theorem continues_act (s : Session) (a : Act) : s.Continues (s.act a).2 := by
  cases a with
  | bind v => exact ⟨rfl, Parameters.prefix_bindAll s.params [.literal v]⟩
  | bindNode id v => exact ⟨rfl, Parameters.prefix_bindAll s.params [.node id v]⟩
  | write ctx node => exact s.continues_fill (node.template ctx)

theorem continues_acts (s : Session) (as : List Act) : s.Continues (s.acts as) := by
  induction as generalizing s with
  | nil => exact .refl s
  | cons a as ih => exact (s.continues_act a).trans (ih (s.act a).2)

/-! ## What was written before -/

/-- **A template that was filled in a session is filled the same way again.** -/
theorem fill_of_continues {t : Template} (h : (s.fill t).2.Continues s') :
    s'.fill t = ((s.fill t).1, s') := by
  have hparams : (s.params.bindAll t.bindings).entries <+: s'.params.entries := by
    rw [← Template.write_snd (d := s.dialect)]
    exact h.params
  have hknown : ∀ b ∈ t.bindings, b.key ∈ s'.params.keys := fun b hb =>
    (hparams.map Binding.key).subset (Parameters.key_mem_keys_bindAll hb)
  have hsame : s'.params.bindAll t.bindings = s'.params := Parameters.bindAll_of_mem hknown
  have hagain : (s'.params.bindAll t.bindings).entries <+: s'.params.entries :=
    ⟨[], by rw [List.append_nil, hsame]⟩
  have hdialect : s.dialect = s'.dialect := h.dialect
  have hsnd : (s'.fill t).2 = s' := by
    unfold fill
    rw [Template.write_snd, hsame]
  have hfst : (s'.fill t).1 = (s.fill t).1 := by
    unfold fill
    rw [Template.write_fst hagain, Template.write_fst hparams, hdialect]
  exact Prod.ext hfst hsnd

theorem write_of_continues (h : (s.write ctx node).2.Continues s') :
    s'.write ctx node = ((s.write ctx node).1, s') := fill_of_continues h

/-- **At its place in a node a part has the text that it would have afterwards.** -/
theorem write_part (h : node.HasAt ctx c part before)
    (hlater : (s.write ctx node).2.Continues s') :
    ((s.fill before).2.write c part).1 = (s'.write c part).1 ∧
      ∃ rest, (s.write ctx node).1 =
        (s.fill before).1 ++ ((s.fill before).2.write c part).1 ++ rest := by
  obtain ⟨after, hsplit⟩ := h
  have hwhole : s.write ctx node =
      (((s.fill before).1 ++ ((s.fill before).2.write c part).1) ++
        (((s.fill before).2.write c part).2.fill after).1,
      (((s.fill before).2.write c part).2.fill after).2) := by
    change s.fill (node.template ctx) = _
    rw [hsplit, fill_append, fill_append]
    rfl
  have hafter : ((s.fill before).2.write c part).2.Continues (s.write ctx node).2 := by
    rw [hwhole]
    exact continues_fill _ after
  refine ⟨?_, _, congrArg Prod.fst hwhole⟩
  rw [write_of_continues (hafter.trans hlater)]

/-- **A node that was written is written the same way again**, for every node, context and session,
and whatever else is bound or written in between: the text is the same and the session stays as it
is.

So parts are written alike wherever they stand. A node that the whole contains has a place in it,
and at each place it has the text that writing it afterwards gives. To rows the context makes no
difference, so a nested query or a derived table has one text in all its places. -/
theorem write_again (s : Session) (ctx : Context) (node : Node) (as : List Act) :
    let first := s.write ctx node
    let later := first.2.acts as
    later.write ctx node = (first.1, later) ∧
    (∀ c part, node.Contains ctx c part → ∃ before, node.HasAt ctx c part before) ∧
    (∀ c part before, node.HasAt ctx c part before →
      ((s.fill before).2.write c part).1 = (later.write c part).1 ∧
      ∃ rest, first.1 = (s.fill before).1 ++ ((s.fill before).2.write c part).1 ++ rest) ∧
    ∀ part : Node, part.IsRows → ∀ c c' before before',
      node.HasAt ctx c part before → node.HasAt ctx c' part before' →
        ((s.fill before).2.write c part).1 = ((s.fill before').2.write c' part).1 := by
  intro first later
  have hlater : first.2.Continues later := first.2.continues_acts as
  refine ⟨write_of_continues hlater, fun c part => Node.Contains.exists_place,
    fun c part before hplace => write_part hplace hlater, ?_⟩
  intro part hrows c c' before before' hplace hplace'
  rw [(write_part hplace hlater).1, (write_part hplace' hlater).1]
  exact congrArg (fun t => (later.fill t).1) (hrows.template_eq c c')

/-- A nested query in a select list, as a derived table and in a condition. It binds a NaN by its
bits and an array by its identity. What is bound or written afterwards takes the next ordinals. -/
theorem write_again_nested :
    let nan : Value := .float ⟨0x7ff8000000000001⟩
    let x : Expr := .verbatim "x"
    let rows : Subquery := ⟨7, [.select false [.param nan], .fromTable (.ofName "t"),
      .filter (.compareSet x .eq .any (.array 3 (.array [nan])))]⟩
    let node : Node := .query [.select false [.subquery rows], .fromTable (.derived rows "d"),
      .filter (.memberOf x (.subquery rows))]
    let text := "SELECT (SELECT $1 FROM t WHERE x = ANY($2)) FROM (SELECT $1 FROM t WHERE x = " ++
      "ANY($2)) AS d WHERE x IN (SELECT $1 FROM t WHERE x = ANY($2))"
    let first := (start .postgres).write .output node
    let later := first.2.acts [.bind (.int 2), .bindNode 4 (.array [nan]), .bindNode 3 .null,
      .write .reference (.condition (.compareLiteral x .lt (.array [nan])))]
    first.1 = text ∧ later.params.size = 5 ∧ later.write .output node = (text, later) := by
  intro nan x rows node text first later
  have htext : first.1 = text := by decide +kernel
  refine ⟨htext, by decide +kernel, ?_⟩
  rw [← htext]
  exact (write_again (start .postgres) .output node _).1

end Session
end SqlBuilder
