import Mathlib.Data.List.Forall2
import Mathlib.Order.BoundedOrder.Lattice
import SqlBuilder.Node.Basic

/-!
# The grammar of boolean expressions

The database reads a condition as a sequence of tokens: atoms, `AND`, `OR` and parentheses, where
`AND` binds tighter than `OR` (`Reads`). The grammar is unambiguous: a reader that goes through the
tokens once, with a stack for open parentheses, finds the one expression that they make up
(`Reads.ofLexemes?`, `Reads.unique`).

Values are taken from any bounded lattice: `Bool`, `Prop`, or the three truth values of a database,
where an unknown one lies between false and true.
-/

namespace SqlBuilder

/-- A token of a boolean expression over atoms. -/
inductive Lexeme (α : Type) where
  | atom (a : α)
  | connective (k : Connective)
  | opening
  | closing

/-- A boolean expression as it is read. -/
inductive Formula (α : Type) where
  | atom (a : α)
  | connect (k : Connective) (left right : Formula α)

/-! ## Values -/

namespace Connective

variable {L : Type} [Lattice L]

/-- The value of two conditions with a connective between them. -/
def combine : Connective → L → L → L
  | and, a, b => a ⊓ b
  | or, a, b => a ⊔ b

theorem combine_assoc (k : Connective) (a b c : L) :
    k.combine (k.combine a b) c = k.combine a (k.combine b c) := by
  cases k with
  | and => exact inf_assoc a b c
  | or => exact sup_assoc a b c

variable [BoundedOrder L]

/-- The value of no conditions: true for `AND`, false for `OR`. -/
def unit : Connective → L
  | and => ⊤
  | or => ⊥

/-- The value of a chain of conditions: that all of them hold, or that some of them does. -/
def combineAll (k : Connective) (xs : List L) : L := xs.foldr k.combine k.unit

theorem combine_unit (k : Connective) (a : L) : k.combine a k.unit = a := by
  cases k with
  | and => exact inf_top_eq a
  | or => exact sup_bot_eq a

end Connective

variable {α L : Type}

/-- The value of an expression for an assignment of values to its atoms. -/
def Formula.value [Lattice L] (v : α → L) : Formula α → L
  | atom a => v a
  | connect k left right => k.combine (left.value v) (right.value v)

/-! ## Grammar -/

/-- How loosely an expression is held together. -/
inductive Rank where
  | operand | conjunction | disjunction

namespace Connective

/-- The rank of an expression that the connective makes. -/
def rank : Connective → Rank
  | and => .conjunction
  | or => .disjunction

/-- The rank of what stands to the right of the connective. -/
def operandRank : Connective → Rank
  | and => .operand
  | or => .conjunction

theorem rank_inj {k l : Connective} (h : k.rank = l.rank) : k = l := by
  cases k <;> cases l <;> first | rfl | exact Rank.noConfusion h

theorem rank_ne_operand (k : Connective) : k.rank ≠ .operand := by
  cases k <;> exact Rank.noConfusion

end Connective

/-- The grammar. An operand is an atom or a disjunction in parentheses, a conjunction is operands
with `AND` between them, and a disjunction is conjunctions with `OR` between them. -/
inductive Reads : Rank → List (Lexeme α) → Formula α → Prop where
  | atom (a : α) : Reads .operand [.atom a] (.atom a)
  | group {ts : List (Lexeme α)} {e : Formula α} :
      Reads .disjunction ts e → Reads .operand (.opening :: ts ++ [.closing]) e
  | single (k : Connective) {ts : List (Lexeme α)} {e : Formula α} :
      Reads k.operandRank ts e → Reads k.rank ts e
  | connect (k : Connective) {ts us : List (Lexeme α)} {e f : Formula α} :
      Reads k.rank ts e → Reads k.operandRank us f →
        Reads k.rank (ts ++ .connective k :: us) (.connect k e f)

/-! ## Reading tokens -/

/-- What stands open before an operand at one depth of parentheses: the disjunction that it will
continue, and the conjunction. -/
structure Frame (α : Type) where
  or? : Option (Formula α)
  and? : Option (Formula α)

/-- Nothing stands open. -/
def Frame.empty : Frame α := ⟨none, none⟩

/-- The expression behind what stands open before it. -/
def Formula.after (k : Connective) (e : Formula α) : Option (Formula α) → Formula α
  | none => e
  | some left => .connect k left e

mutual

/-- Reads on where an operand has to come. The stack has the frames around open parentheses. -/
def readOperand (s : Frame α) (stack : List (Frame α)) : List (Lexeme α) → Option (Formula α)
  | .atom a :: ts => readConnective s.or? ((Formula.atom a).after .and s.and?) stack ts
  | .opening :: ts => readOperand .empty (s :: stack) ts
  | [] | .connective _ :: _ | .closing :: _ => none

/-- Reads on behind an operand, with `e` for the conjunction that it ends. -/
def readConnective (or? : Option (Formula α)) (e : Formula α) (stack : List (Frame α)) :
    List (Lexeme α) → Option (Formula α)
  | [] =>
    match stack with
    | [] => some (e.after .or or?)
    | _ :: _ => none
  | .connective .and :: ts => readOperand ⟨or?, some e⟩ stack ts
  | .connective .or :: ts => readOperand ⟨some (e.after .or or?), none⟩ stack ts
  | .closing :: ts =>
    match stack with
    | [] => none
    | s :: stack => readConnective s.or? ((e.after .or or?).after .and s.and?) stack ts
  | .atom _ :: _ | .opening :: _ => none

end

/-- The expression that tokens make up, if they make up one. -/
def Formula.ofLexemes? (ts : List (Lexeme α)) : Option (Formula α) := readOperand .empty [] ts

/-- What the reader does with tokens of a rank, whatever comes behind them. -/
def ReadOn : Rank → List (Lexeme α) → Formula α → Prop
  | .operand, ts, e => ∀ s stack rest,
      readOperand s stack (ts ++ rest) = readConnective s.or? (e.after .and s.and?) stack rest
  | .conjunction, ts, e => ∀ or? stack rest,
      readOperand ⟨or?, none⟩ stack (ts ++ rest) = readConnective or? e stack rest
  | .disjunction, ts, e => ∃ or? last, Formula.after .or last or? = e ∧ ∀ stack rest,
      readOperand .empty stack (ts ++ rest) = readConnective or? last stack rest

namespace Reads

variable {r : Rank} {ts : List (Lexeme α)} {e f : Formula α}

theorem readOn (h : Reads r ts e) : ReadOn r ts e := by
  induction h with
  | atom a =>
    intro s stack rest
    rfl
  | @group ts e _ ih =>
    obtain ⟨or?, last, rfl, hlast⟩ := ih
    intro s stack rest
    show readOperand .empty (s :: stack) (ts ++ [.closing] ++ rest) = _
    rw [List.append_assoc, hlast]
    rfl
  | single k _ ih =>
    cases k with
    | and => exact fun or? stack rest => ih ⟨or?, none⟩ stack rest
    | or => exact ⟨none, _, rfl, fun stack rest => ih none stack rest⟩
  | @connect k ts us e f _ _ ihe ihf =>
    cases k with
    | and =>
      intro or? stack rest
      rw [List.append_assoc, List.cons_append, ihe]
      exact ihf ⟨or?, some e⟩ stack rest
    | or =>
      -- the disjunction so far is closed before the next conjunction is read
      obtain ⟨or?, last, rfl, hlast⟩ := ihe
      refine ⟨some (last.after .or or?), f, rfl, fun stack rest => ?_⟩
      rw [List.append_assoc, List.cons_append, hlast]
      exact ihf _ stack rest

/-- What the grammar makes of tokens is what the reader finds. -/
theorem ofLexemes? (h : Reads .disjunction ts e) : Formula.ofLexemes? ts = some e := by
  obtain ⟨or?, last, rfl, hlast⟩ := h.readOn
  have hread := hlast [] []
  rwa [List.append_nil] at hread

/-- **The grammar is unambiguous.** -/
theorem unique (he : Reads .disjunction ts e) (hf : Reads .disjunction ts f) : e = f :=
  Option.some.inj (he.ofLexemes?.symm.trans hf.ofLexemes?)

end Reads

/-! ## What is read has a value -/

/-- Tokens make up an expression of a rank with a value. -/
def ReadsAs [Lattice L] (v : α → L) (r : Rank) (ts : List (Lexeme α)) (x : L) : Prop :=
  ∃ e, Reads r ts e ∧ e.value v = x

namespace ReadsAs

variable [Lattice L] {v : α → L} {r : Rank} {k : Connective} {ts us : List (Lexeme α)} {x y : L}

theorem single (k : Connective) (h : ReadsAs v k.operandRank ts x) : ReadsAs v k.rank ts x :=
  let ⟨e, he, hx⟩ := h
  ⟨e, .single k he, hx⟩

theorem disjunction_of_operand (h : ReadsAs v .operand ts x) : ReadsAs v .disjunction ts x :=
  single .or (single .and h)

theorem conjunction_of_operand (h : ReadsAs v .operand ts x) : ReadsAs v .conjunction ts x :=
  single .and h

/-- A connective between two expressions of its own rank reads as if it were applied to both,
although the grammar takes the second apart. -/
theorem connect (h : ReadsAs v k.rank ts x) (h' : ReadsAs v k.rank us y) :
    ReadsAs v k.rank (ts ++ .connective k :: us) (k.combine x y) := by
  obtain ⟨e, he, rfl⟩ := h
  obtain ⟨f, hf, rfl⟩ := h'
  generalize hr : k.rank = r at hf
  induction hf with
  | atom a => exact absurd hr k.rank_ne_operand
  | group _ _ => exact absurd hr k.rank_ne_operand
  | single l hf _ =>
    obtain rfl := Connective.rank_inj hr
    exact ⟨_, .connect k he hf, rfl⟩
  | @connect l us us' f f' _ hf' ih _ =>
    obtain rfl := Connective.rank_inj hr
    obtain ⟨g, hg, hvalue⟩ := ih rfl
    have hread := Reads.connect k hg hf'
    rw [List.append_assoc, List.cons_append] at hread
    refine ⟨_, hread, ?_⟩
    rw [Formula.value, hvalue, Formula.value, Connective.combine_assoc]

variable [BoundedOrder L]

theorem combineAll_singleton (k : Connective) (h : ReadsAs v r ts x) :
    ReadsAs v r ([.connective k].intercalate [ts]) (k.combineAll [x]) := by
  rw [List.intercalate_singleton, Connective.combineAll, List.foldr_cons, List.foldr_nil,
    Connective.combine_unit]
  exact h

/-- A chain of expressions of the connective's rank. -/
theorem combineAll {tss : List (List (Lexeme α))} {xs : List L}
    (h : List.Forall₂ (ReadsAs v k.rank) tss xs) (hne : tss ≠ []) :
    ReadsAs v k.rank ([.connective k].intercalate tss) (k.combineAll xs) := by
  induction h with
  | nil => exact absurd rfl hne
  | cons hread hrest ih =>
    cases hrest with
    | nil => exact hread.combineAll_singleton k
    | cons _ _ =>
      rw [List.intercalate_cons_cons, List.append_assoc]
      exact hread.connect (ih (List.cons_ne_nil _ _))

end ReadsAs
end SqlBuilder
