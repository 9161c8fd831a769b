import SqlBuilder.Proofs.Parameters
import SqlBuilder.Proofs.Rendering.Trace
import SqlBuilder.Session

/-!
# Writing a node binds its literals in first-seen order

Writing goes through a template once, with the parameters in hand. Two facts describe what comes
out. The parameters are those from before and, after them, the new literals of the node in the
order of its visits (`write_snd`). The text is the template with every slot replaced by the
placeholder of its key's position among the *final* parameters (`write_fst`): an ordinal is never
moved by what is bound after it. So the pieces of a text are fixed by the node and its context
alone, and the dialect and the earlier parameters only decide how the slots are filled.
`write_firstSeen` puts both together for a session.
-/

namespace SqlBuilder

/-- A piece of a finished text. -/
inductive Token where
  | verbatim (text : String)
  /-- A placeholder that the dialect writes for the parameter with this ordinal. -/
  | placeholder (ordinal : Nat)

def Token.text (d : Dialect) : Token → String
  | verbatim s => s
  | placeholder ordinal => d.placeholder ordinal

/-- The token of a piece: a slot is filled with the position of its key. -/
def Piece.token (u : Parameters) : Piece → Token
  | text s => .verbatim s
  | column c ctx => .verbatim (c.text ctx)
  | slot b => .placeholder (u.position b.key)
  | hidden _ | enter | leave => .verbatim ""

namespace Template

variable {d : Dialect} {p u : Parameters}

/-- The template with its slots filled from parameters. -/
def tokens (u : Parameters) (t : Template) : List Token := t.map (Piece.token u)

/-! ## The parameters after writing -/

theorem write_cons (d : Dialect) (p : Parameters) (piece : Piece) (t : Template) :
    write d p (piece :: t) =
      ((piece.write d p).1 ++ (write d (piece.write d p).2 t).1,
        (write d (piece.write d p).2 t).2) := rfl

theorem bindAll_bindings_cons (piece : Piece) (t : Template) :
    p.bindAll (bindings (piece :: t)) = (piece.write d p).2.bindAll (bindings t) := by
  cases piece <;> rfl

/-- Writing binds what the template binds. -/
theorem write_snd (t : Template) : (t.write d p).2 = p.bindAll t.bindings := by
  induction t generalizing p with
  | nil => rfl
  | cons piece t ih => rw [write_cons, ih, bindAll_bindings_cons (d := d)]

/-! ## The text -/

/-- One piece writes the text of its token, in any parameters that it leads to. -/
theorem piece_write_fst {piece : Piece} (h : (piece.write d p).2.entries <+: u.entries) :
    (piece.write d p).1 = (piece.token u).text d := by
  cases piece with
  | slot b =>
    have hordinal := Parameters.ordinal?_of_prefix h (Parameters.ordinal?_bind p b)
    rw [Piece.token, (Parameters.ordinal?_eq_some_iff.mp hordinal).2]
    rfl
  | text s => rfl
  | column c ctx => rfl
  | hidden b => rfl
  | enter => rfl
  | leave => rfl

/-- **The text is the template filled from the final parameters**, or from any that extend them. -/
theorem write_fst {t : Template} (h : (p.bindAll t.bindings).entries <+: u.entries) :
    (t.write d p).1 = String.join ((t.tokens u).map (Token.text d)) := by
  induction t generalizing p with
  | nil => rfl
  | cons piece t ih =>
    rw [bindAll_bindings_cons (d := d)] at h
    have hpiece := (Parameters.prefix_bindAll (piece.write d p).2 (bindings t)).trans h
    rw [write_cons, ih h, piece_write_fst hpiece, tokens, tokens, List.map_cons, List.map_cons,
      String.join_cons]

end Template

/-! ## Nodes in a session -/

theorem Node.bindings_template (ctx : Context) (node : Node) :
    (node.template ctx).bindings = node.literals ctx := by
  rw [Template.bindings_eq, node.visits_template, Node.literals]

/-- A node written in a session: its tokens from the parameters that it leaves. -/
theorem Session.write_eq (s : Session) (ctx : Context) (node : Node) :
    s.write ctx node =
      (String.join (((node.template ctx).tokens (s.params.bindAll (node.literals ctx))).map
        (Token.text s.dialect)), { s with params := s.params.bindAll (node.literals ctx) }) := by
  have hsnd := Template.write_snd (d := s.dialect) (p := s.params) (node.template ctx)
  have hfst := Template.write_fst (d := s.dialect) (p := s.params) (t := node.template ctx)
    (List.prefix_refl _)
  rw [node.bindings_template] at hsnd hfst
  rw [← hfst, ← hsnd]
  rfl

/-! ## Writing one thing after another -/

theorem Template.write_append (d : Dialect) (p : Parameters) (t u : Template) :
    write d p (t ++ u) = ((write d p t).1 ++ (write d (write d p t).2 u).1,
      (write d (write d p t).2 u).2) := by
  induction t generalizing p with
  | nil => simp [write]
  | cons piece t ih =>
    rw [List.cons_append, write_cons, ih, write_cons, String.append_assoc]

namespace Session

/-- Writes a template in the session. -/
def fill (session : Session) (t : Template) : String × Session :=
  ((t.write session.dialect session.params).1,
    { session with params := (t.write session.dialect session.params).2 })

theorem fill_append (session : Session) (t u : Template) : session.fill (t ++ u) =
    ((session.fill t).1 ++ ((session.fill t).2.fill u).1, ((session.fill t).2.fill u).2) := by
  unfold fill
  rw [Template.write_append]

theorem fill_text_cons (session : Session) (text : String) (t : Template) :
    session.fill (.text text :: t) = (text ++ (session.fill t).1, (session.fill t).2) := rfl

theorem fill_text (session : Session) (text : String) :
    session.fill [.text text] = (text, session) := by
  rw [fill_text_cons]
  exact congrArg (·, session) String.append_empty

theorem prefix_fill (session : Session) (t : Template) :
    session.params.values <+: (session.fill t).2.params.values := by
  unfold fill
  rw [Template.write_snd]
  exact (Parameters.prefix_bindAll session.params t.bindings).map Binding.value

end Session

/-- **Writing follows the first-seen rule**, for every node, context, dialect and session.

The parameters afterwards are those before and the literals of the node that were not among them,
each at its first visit. The text is made of pieces that the node and the context fix, in which the
slot of a literal holds the placeholder of the 1-based position of the literal's key. So ordinals
are equal exactly when keys are, they are dense, and one that was given out before stays. -/
theorem Session.write_firstSeen (s : Session) (ctx : Context) (node : Node) :
    ∃ u : Parameters,
      s.write ctx node =
        (String.join (((node.template ctx).tokens u).map (Token.text s.dialect)),
          { s with params := u }) ∧
      u.entries = s.params.entries ++ Binding.firstNew s.params.keys (node.literals ctx) ∧
      (node.template ctx).visits = node.visits ctx ∧
      (∀ b ∈ node.literals ctx, u.ordinal? b.key = some (u.position b.key)) ∧
      (∀ b ∈ node.literals ctx, ∀ c ∈ node.literals ctx,
        u.position b.key = u.position c.key ↔ b.key = c.key) ∧
      (∀ n, 1 ≤ n → n ≤ u.size →
        ∃ b ∈ s.params.entries ++ node.literals ctx, u.ordinal? b.key = some n) ∧
      ∀ k n, s.params.ordinal? k = some n → u.ordinal? k = some n := by
  have hmem : ∀ b ∈ node.literals ctx, b.key ∈ (s.params.bindAll (node.literals ctx)).keys :=
    fun b hb => Parameters.mem_keys_bindAll.mpr (.inr ⟨b, hb, rfl⟩)
  refine ⟨s.params.bindAll (node.literals ctx), s.write_eq ctx node,
    Parameters.entries_bindAll _ _, node.visits_template ctx, ?_, ?_, ?_, ?_⟩
  · intro b hb
    exact Parameters.ordinal?_eq_some_position (hmem b hb)
  · intro b hb c _
    exact Parameters.position_inj (hmem b hb)
  · intro n hpos hle
    obtain ⟨k, hk, rfl⟩ := Parameters.exists_position_eq hpos hle
    have hordinal := Parameters.ordinal?_eq_some_position hk
    rcases Parameters.mem_keys_bindAll.mp hk with hold | ⟨b, hb, rfl⟩
    · obtain ⟨b, hb, rfl⟩ := List.mem_map.mp hold
      exact ⟨b, List.mem_append_left _ hb, hordinal⟩
    · exact ⟨b, List.mem_append_right _ hb, hordinal⟩
  · intro k n h
    exact Parameters.ordinal?_of_prefix (Parameters.prefix_bindAll _ _) h

end SqlBuilder
