import SqlBuilder.Condition
import SqlBuilder.Proofs.Grouping.Grammar
import SqlBuilder.Proofs.Rendering.FirstSeen

/-!
# A condition means what its text says

A chain is written flat, without parentheses of its own, so its text can fall apart in other places
than the tree does: an `OR` chain inside an `AND` chain has to be in parentheses. `groupsOr` is this
requirement. `value_of_text` says that it is enough: the text of every condition that keeps it and
has no empty chain is read as exactly one expression, and that expression has the value of the tree
whatever values its leaves have. Chains of one item, chains in chains of the same connective and
`OR` over `AND` need no parentheses.

How a token looks in a text is said in letters by `Lexeme.template` and `Session.writeLexemes`. That
a condition is written so is part of what is proved (`template_lexemesFrom`,
`write_eq_writeLexemes`).

Leaves are told apart by their number from left to right, since a condition written twice need not
have the same value twice.
-/

namespace SqlBuilder

/-- A condition that is neither a chain nor in parentheses, with its number from left to right. -/
structure Occurrence where
  index : Nat
  leaf : Condition

namespace Condition

/-! ## Tokens -/

mutual

/-- The number of leaves. -/
def leafCount : Condition → Nat
  | .chain _ items => leafCountOf items
  | .grouped inner => inner.leafCount
  | _ => 1

def leafCountOf : List Condition → Nat
  | [] => 0
  | item :: items => item.leafCount + leafCountOf items

end

mutual

/-- The tokens of a condition whose leaves are numbered from `n`. -/
def lexemesFrom (n : Nat) : Condition → List (Lexeme Occurrence)
  | .chain connective items => [.connective connective].intercalate (lexemesOf n items)
  | .grouped inner => .opening :: inner.lexemesFrom n ++ [.closing]
  | leaf => [.atom ⟨n, leaf⟩]

def lexemesOf (n : Nat) : List Condition → List (List (Lexeme Occurrence))
  | [] => []
  | item :: items => item.lexemesFrom n :: lexemesOf (n + item.leafCount) items

end

/-- The tokens of a condition. -/
def lexemes (c : Condition) : List (Lexeme Occurrence) := c.lexemesFrom 0

/-! ## Value -/

section Value

variable {L : Type} [Lattice L] [BoundedOrder L] (v : Occurrence → L)

mutual

/-- The value of a condition whose leaves are numbered from `n`. -/
def valueFrom (n : Nat) : Condition → L
  | .chain connective items => connective.combineAll (valuesOf n items)
  | .grouped inner => inner.valueFrom n
  | leaf => v ⟨n, leaf⟩

def valuesOf (n : Nat) : List Condition → List L
  | [] => []
  | item :: items => item.valueFrom n :: valuesOf (n + item.leafCount) items

end

/-- The value of a condition when `v` gives those of its leaves: a chain of `AND` is that all of its
items hold, a chain of `OR` that some of them does. -/
def value (c : Condition) : L := c.valueFrom v 0

end Value

/-! ## Requirements -/

mutual

/-- No chain in the condition is empty. -/
def isFilled : Condition → Bool
  | .chain _ items => !items.isEmpty && allFilled items
  | .grouped inner => inner.isFilled
  | _ => true

def allFilled : List Condition → Bool
  | [] => true
  | item :: items => item.isFilled && allFilled items

end

mutual

/-- An `OR` between two items stands outside parentheses. -/
def showsOr : Condition → Bool
  | .chain connective items => (connective = .or && 2 ≤ items.length) || anyShowsOr items
  | _ => false

def anyShowsOr : List Condition → Bool
  | [] => false
  | item :: items => item.showsOr || anyShowsOr items

end

mutual

/-- Wherever `AND` stands between items, an `OR` between items is in parentheses. -/
def groupsOr : Condition → Bool
  | .chain connective items =>
    !(connective = .and && 2 ≤ items.length && anyShowsOr items) && allGroupOr items
  | .grouped inner => inner.groupsOr
  | _ => true

def allGroupOr : List Condition → Bool
  | [] => true
  | item :: items => item.groupsOr && allGroupOr items

end

def isLeaf : Condition → Bool
  | .chain _ _ | .grouped _ => false
  | _ => true

/-- The condition is put together from leaves by the functions for that. -/
inductive Built : Condition → Prop where
  | leaf {c : Condition} : c.isLeaf = true → Built c
  | and {a b : Condition} : Built a → Built b → Built (a.and b)
  | or {a b : Condition} : Built a → Built b → Built (a.or b)
  | all {cs : List Condition} : (∀ c ∈ cs, Built c) → Built (all cs)
  | grouped {c : Condition} : Built c → Built (.grouped c)

end Condition

/-! ## The tokens are the text -/

namespace Lexeme

/-- What is written for a token. -/
def template : Lexeme Occurrence → Template
  | atom o => o.leaf.template
  | connective .and => [.text " AND "]
  | connective .or => [.text " OR "]
  | opening => [.text "("]
  | closing => [.text ")"]

/-- The number of an atom. -/
def index? : Lexeme Occurrence → Option Nat
  | atom o => some o.index
  | connective _ | opening | closing => none

theorem template_connective (k : Connective) :
    (connective k).template = [.text (" " ++ k.keyword ++ " ")] := by
  cases k with
  | and =>
    have hword : " " ++ Connective.and.keyword ++ " " = " AND " := by decide
    rw [hword, template]
  | or =>
    have hword : " " ++ Connective.or.keyword ++ " " = " OR " := by decide
    rw [hword, template]

theorem flatMap_intercalate (k : Connective) :
    ∀ tss : List (List (Lexeme Occurrence)),
      ([.connective k].intercalate tss).flatMap template =
        Template.joined (" " ++ k.keyword ++ " ") (tss.map (List.flatMap template))
  | [] => rfl
  | [ts] => by
    rw [List.intercalate_singleton]
    rfl
  | ts :: us :: tss => by
    rw [List.intercalate_cons_cons, List.flatMap_append, List.flatMap_append,
      flatMap_intercalate k (us :: tss), List.flatMap_singleton, template_connective,
      List.append_assoc]
    rfl

theorem filterMap_intercalate (k : Connective) :
    ∀ tss : List (List (Lexeme Occurrence)),
      ([.connective k].intercalate tss).filterMap index? =
        (tss.map (List.filterMap index?)).flatten
  | [] => rfl
  | [ts] => by
    rw [List.intercalate_singleton, List.map_singleton, List.flatten_singleton]
  | ts :: us :: tss => by
    rw [List.intercalate_cons_cons, List.filterMap_append, List.filterMap_append,
      filterMap_intercalate k (us :: tss), List.append_assoc]
    rfl

end Lexeme

namespace Session

/-- Writes a token: an atom as the condition that it is, and any other token as its text. -/
def writeLexeme (s : Session) (ctx : Context) : Lexeme Occurrence → String × Session
  | .atom o => s.write ctx (.condition o.leaf)
  | .connective .and => (" AND ", s)
  | .connective .or => (" OR ", s)
  | .opening => ("(", s)
  | .closing => (")", s)

/-- Writes tokens one after the other, each in the session that the one before leaves. -/
def writeLexemes (s : Session) (ctx : Context) : List (Lexeme Occurrence) → String × Session
  | [] => ("", s)
  | t :: ts =>
    let (head, s) := s.writeLexeme ctx t
    let (tail, s) := s.writeLexemes ctx ts
    (head ++ tail, s)

theorem fill_template (s : Session) (ctx : Context) (t : Lexeme Occurrence) :
    s.fill t.template = s.writeLexeme ctx t := by
  cases t with
  | atom o => rfl
  | connective k =>
    cases k with
    | and => exact s.fill_text " AND "
    | or => exact s.fill_text " OR "
  | opening => exact s.fill_text "("
  | closing => exact s.fill_text ")"

theorem fill_flatMap_template (ctx : Context) (ts : List (Lexeme Occurrence)) (s : Session) :
    s.fill (ts.flatMap Lexeme.template) = s.writeLexemes ctx ts := by
  induction ts generalizing s with
  | nil => rfl
  | cons t ts ih =>
    rw [List.flatMap_cons, fill_append, fill_template s ctx, ih]
    rfl

end Session

namespace Condition

mutual

theorem template_lexemesFrom (n : Nat) :
    ∀ c : Condition, (c.lexemesFrom n).flatMap Lexeme.template = c.template
  | .chain k items => by
    rw [lexemesFrom, Lexeme.flatMap_intercalate, templates_lexemesOf n items, Condition.template]
  | .grouped inner => by
    rw [lexemesFrom, List.flatMap_append, List.flatMap_cons, template_lexemesFrom n inner,
      Condition.template]
    rfl
  | .compare _ _ _ | .compareLiteral _ _ _ | .inLiterals _ _ | .memberOf _ _
  | .compareSet _ _ _ _ | .isNull _ _ | .existsRows _ => List.append_nil _

theorem templates_lexemesOf (n : Nat) :
    ∀ cs : List Condition,
      (lexemesOf n cs).map (List.flatMap Lexeme.template) = Condition.templates cs
  | [] => rfl
  | c :: cs => by
    rw [lexemesOf, List.map_cons, template_lexemesFrom n c, templates_lexemesOf _ cs,
      Condition.templates]

end

mutual

/-- The atoms are the leaves, each once and in order. -/
theorem indices_lexemesFrom (n : Nat) :
    ∀ c : Condition, (c.lexemesFrom n).filterMap Lexeme.index? = List.range' n c.leafCount
  | .chain k items => by
    rw [lexemesFrom, Lexeme.filterMap_intercalate, indices_lexemesOf n items, leafCount]
  | .grouped inner => by
    rw [lexemesFrom, List.filterMap_append, List.filterMap_cons, indices_lexemesFrom n inner,
      leafCount]
    exact List.append_nil _
  | .compare _ _ _ | .compareLiteral _ _ _ | .inLiterals _ _ | .memberOf _ _
  | .compareSet _ _ _ _ | .isNull _ _ | .existsRows _ => rfl

theorem indices_lexemesOf (n : Nat) :
    ∀ cs : List Condition,
      ((lexemesOf n cs).map (List.filterMap Lexeme.index?)).flatten =
        List.range' n (leafCountOf cs)
  | [] => rfl
  | c :: cs => by
    rw [lexemesOf, List.map_cons, List.flatten_cons, indices_lexemesFrom n c,
      indices_lexemesOf _ cs, leafCountOf, List.range'_append_1]

end

/-! ## Reading the tokens back -/

section Reading

variable {L : Type} [Lattice L] [BoundedOrder L] (v : Occurrence → L)

theorem readsAs_leaf {c : Condition} (h : c.isLeaf = true) (n : Nat) :
    ReadsAs v .operand (c.lexemesFrom n) (c.valueFrom v n) := by
  refine ⟨.atom ⟨n, c⟩, ?_, ?_⟩ <;> cases c <;> first
    | exact absurd h Bool.false_ne_true
    | exact .atom _
    | rfl

/-- A chain reads as a disjunction when its items do, and as a conjunction when it shows no `OR`
and its items read as conjunctions. -/
theorem readsAs_chain (k : Connective) (n : Nat) (items : List Condition)
    (hfilled : isFilled (.chain k items) = true) (hgroups : groupsOr (.chain k items) = true)
    (hdisjunctions : List.Forall₂ (ReadsAs v .disjunction) (lexemesOf n items) (valuesOf v n items))
    (hconjunctions : anyShowsOr items = false →
      List.Forall₂ (ReadsAs v .conjunction) (lexemesOf n items) (valuesOf v n items)) :
    let c : Condition := .chain k items
    ReadsAs v .disjunction (c.lexemesFrom n) (c.valueFrom v n) ∧
      (c.showsOr = false → ReadsAs v .conjunction (c.lexemesFrom n) (c.valueFrom v n)) := by
  match items, hdisjunctions with
  | [], _ => exact absurd hfilled Bool.false_ne_true
  | [item], .cons hitem _ =>
    -- one item: no connective is written, and the item alone decides
    refine ⟨hitem.combineAll_singleton k, fun hshows => ?_⟩
    rw [showsOr, Bool.or_eq_false_iff] at hshows
    cases hconjunctions hshows.2 with
    | cons hitem _ => exact hitem.combineAll_singleton k
  | first :: second :: rest, hdisjunctions =>
    cases k with
    | and =>
      have hshows : anyShowsOr (first :: second :: rest) = false := by
        rw [groupsOr, Bool.and_eq_true] at hgroups
        simpa using hgroups.1
      have hread := ReadsAs.combineAll (k := .and) (hconjunctions hshows) (List.cons_ne_nil _ _)
      exact ⟨.single .or hread, fun _ => hread⟩
    | or =>
      have hread := ReadsAs.combineAll (k := .or) hdisjunctions (List.cons_ne_nil _ _)
      refine ⟨hread, fun hshows => ?_⟩
      rw [showsOr, Bool.or_eq_false_iff] at hshows
      exact absurd hshows.1 (by simp)

mutual

/-- The tokens of a condition read as a disjunction with its value, and as a conjunction unless an
`OR` between items stands outside parentheses. -/
theorem readsAs (n : Nat) :
    ∀ c : Condition, c.isFilled = true → c.groupsOr = true →
      ReadsAs v .disjunction (c.lexemesFrom n) (c.valueFrom v n) ∧
        (c.showsOr = false → ReadsAs v .conjunction (c.lexemesFrom n) (c.valueFrom v n))
  | .chain k items, hfilled, hgroups => by
    have hitems := readsAs_all n items (Bool.and_eq_true_iff.mp hfilled).2
      (Bool.and_eq_true_iff.mp hgroups).2
    exact readsAs_chain v k n items hfilled hgroups hitems.1 hitems.2
  | .grouped inner, hfilled, hgroups => by
    obtain ⟨e, he, hvalue⟩ := (readsAs n inner hfilled hgroups).1
    have hoperand : ReadsAs v .operand (Condition.lexemesFrom n (.grouped inner))
        (inner.valueFrom v n) := ⟨e, .group he, hvalue⟩
    exact ⟨hoperand.disjunction_of_operand, fun _ => hoperand.conjunction_of_operand⟩
  | .compare _ _ _, _, _ | .compareLiteral _ _ _, _, _ | .inLiterals _ _, _, _
  | .memberOf _ _, _, _ | .compareSet _ _ _ _, _, _ | .isNull _ _, _, _ | .existsRows _, _, _ =>
    have hoperand := readsAs_leaf v rfl n
    ⟨hoperand.disjunction_of_operand, fun _ => hoperand.conjunction_of_operand⟩

theorem readsAs_all (n : Nat) :
    ∀ cs : List Condition, allFilled cs = true → allGroupOr cs = true →
      List.Forall₂ (ReadsAs v .disjunction) (lexemesOf n cs) (valuesOf v n cs) ∧
        (anyShowsOr cs = false →
          List.Forall₂ (ReadsAs v .conjunction) (lexemesOf n cs) (valuesOf v n cs))
  | [], _, _ => ⟨.nil, fun _ => .nil⟩
  | c :: cs, hfilled, hgroups => by
    rw [allFilled, Bool.and_eq_true] at hfilled
    rw [allGroupOr, Bool.and_eq_true] at hgroups
    have hc := readsAs n c hfilled.1 hgroups.1
    have hcs := readsAs_all (n + c.leafCount) cs hfilled.2 hgroups.2
    refine ⟨.cons hc.1 hcs.1, fun hshows => ?_⟩
    rw [anyShowsOr, Bool.or_eq_false_iff] at hshows
    exact .cons (hc.2 hshows.1) (hcs.2 hshows.2)

end

end Reading

/-! ## Conditions that are put together have no empty chain -/

theorem allFilled_iff (cs : List Condition) :
    allFilled cs = true ↔ ∀ c ∈ cs, c.isFilled = true := by
  induction cs with
  | nil => simp [allFilled]
  | cons c cs ih => simp [allFilled, ih]

theorem isFilled_append {k : Connective} {a b : Condition} (ha : a.isFilled = true)
    (hb : b.isFilled = true) : (append k a b).isFilled = true := by
  have hpair : isFilled (.chain k [a, b]) = true := by simp [isFilled, allFilled, ha, hb]
  unfold append
  split
  · rename_i l items
    split
    · rw [isFilled, Bool.and_eq_true, allFilled_iff] at ha
      rw [isFilled, Bool.and_eq_true, allFilled_iff]
      refine ⟨by simp, fun c hc => ?_⟩
      rcases List.mem_append.mp hc with hc | hc
      · exact ha.2 c hc
      · exact List.mem_singleton.mp hc ▸ hb
    · exact hpair
  · exact hpair

theorem isFilled_all {cs : List Condition} (h : ∀ c ∈ cs, c.isFilled = true) :
    (all cs).isFilled = true := by
  cases cs with
  | nil => rfl
  | cons first cs =>
    have hfirst := h first List.mem_cons_self
    have hrest : ∀ c ∈ cs, c.isFilled = true := fun c hc => h c (List.mem_cons_of_mem _ hc)
    show (cs.foldl and first).isFilled = true
    clear h
    induction cs generalizing first with
    | nil => exact hfirst
    | cons c cs ih =>
      exact ih _ (isFilled_append hfirst (hrest c List.mem_cons_self))
        fun d hd => hrest d (List.mem_cons_of_mem _ hd)

theorem Built.isFilled {c : Condition} (h : Built c) : c.isFilled = true := by
  induction h with
  | @leaf c hleaf => cases c <;> first | rfl | exact absurd hleaf Bool.false_ne_true
  | and _ _ iha ihb => exact isFilled_append iha ihb
  | or _ _ iha ihb => exact isFilled_append iha ihb
  | all _ ih => exact isFilled_all ih
  | grouped _ ih => exact ih

/-- The text of a condition is that of its tokens, in every session. -/
theorem write_eq_writeLexemes (c : Condition) (s : Session) (ctx : Context) :
    s.write ctx (.condition c) = s.writeLexemes ctx c.lexemes := by
  rw [← Session.fill_flatMap_template, lexemes, template_lexemesFrom]
  rfl

/-- **A condition means what its text says.** What is put together by `and`, `or`, `all` and
`grouped` has no empty chain. A condition without one that puts every `OR` under an `AND` in
parentheses is written as its tokens: `AND` and `OR` between spaces, parentheses, and each leaf as
one atom in the session that the tokens before it leave. The tokens are read as exactly one
expression, in which `AND` binds tighter than `OR`; and whatever values the leaves have, the
expression has the value of the condition. -/
theorem value_of_text (c : Condition) :
    (c.Built → c.isFilled = true) ∧
    (c.isFilled = true → c.groupsOr = true →
      c.lexemes.flatMap Lexeme.template = c.template ∧
      (∀ (s : Session) ctx, s.write ctx (.condition c) = s.writeLexemes ctx c.lexemes) ∧
      c.lexemes.filterMap Lexeme.index? = List.range' 0 c.leafCount ∧
      ∃ e, (∀ f, Reads .disjunction c.lexemes f ↔ f = e) ∧
        ∀ (L : Type) [Lattice L] [BoundedOrder L] (v : Occurrence → L), e.value v = c.value v) := by
  refine ⟨Built.isFilled, fun hfilled hgroups => ?_⟩
  refine ⟨template_lexemesFrom 0 c, c.write_eq_writeLexemes, indices_lexemesFrom 0 c, ?_⟩
  obtain ⟨e, he, -⟩ := (readsAs (fun _ => true) 0 c hfilled hgroups).1
  refine ⟨e, fun f => ⟨fun hf => hf.unique he, fun hf => hf ▸ he⟩, fun L _ _ v => ?_⟩
  obtain ⟨f, hf, hvalue⟩ := (readsAs v 0 c hfilled hgroups).1
  rw [he.unique hf]
  exact hvalue

/-- An `OR` in parentheses under an `AND`. The text, the tokens it is made of, and the value. -/
theorem value_of_text_grouped :
    let x : Expr := .verbatim "x"
    let a : Condition := .compareLiteral x .eq (.int 1)
    let b : Condition := .isNull x false
    let c : Condition := .and (.grouped (.or a b)) a
    let s := Session.start .postgres
    c.isFilled = true ∧ c.groupsOr = true ∧
      (s.write .reference (.condition c)).1 = "(x = $1 OR x IS NULL) AND x = $1" ∧
      s.writeLexemes .reference [.opening, .atom ⟨0, a⟩, .connective .or, .atom ⟨1, b⟩, .closing,
        .connective .and, .atom ⟨2, a⟩] = s.write .reference (.condition c) ∧
      ∃ e, (∀ f, Reads .disjunction c.lexemes f ↔ f = e) ∧
        ∀ (L : Type) [Lattice L] [BoundedOrder L] (v : Occurrence → L),
          e.value v = (v ⟨0, a⟩ ⊔ v ⟨1, b⟩) ⊓ v ⟨2, a⟩ := by
  intro x a b c s
  obtain ⟨-, htext, -, e, he, hvalue⟩ := c.value_of_text.2 rfl rfl
  refine ⟨rfl, rfl, by decide, (htext s .reference).symm, e, he, fun L _ _ v => ?_⟩
  rw [hvalue]
  show (v ⟨0, a⟩ ⊔ (v ⟨1, b⟩ ⊔ ⊥)) ⊓ (v ⟨2, a⟩ ⊓ ⊤) = _
  rw [sup_bot_eq, inf_top_eq]

end Condition
end SqlBuilder
