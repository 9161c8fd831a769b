import Mathlib.Computability.RegularExpressions
import SqlBuilder.Query

/-!
# The grammar of building steps

`StepKind.grammar` writes down the order in which a query is built as a regular expression over
the kinds of steps: a select list, a source, joins, and then at most one clause of each further
kind. `Stage.next?` is the same order step by step. `isSome_after?_iff` says that the two agree: a
list of kinds leads from the start to some stage exactly when it begins a word of the grammar.

For the proof every stage has an expression of its own, `Stage.rest`, for the steps that make the
query whole from there on. Taking one step is then taking one letter off (`completes_cons`), and no
stage is a dead end (`exists_completes`).
-/

namespace SqlBuilder

open RegularExpression (char)

namespace StepKind

/-- Once or not at all. -/
def optional (p : RegularExpression StepKind) : RegularExpression StepKind := 1 + p

def selecting : RegularExpression StepKind :=
  char select + char selectDistinct + char selectAll + char selectDistinctAll

/-- A join that waits for its condition. -/
def joining : RegularExpression StepKind := char join + char leftJoin + char rightJoin

def filtering : RegularExpression StepKind := optional (char filter)

def grouping : RegularExpression StepKind := optional (char groupBy * optional (char having))

def sorting : RegularExpression StepKind :=
  optional (char orderBy * optional (char limit * optional (char offset)))

/-- **The steps of a whole query.** -/
def grammar : RegularExpression StepKind :=
  selecting * char fromTable * (joining * char on + char joins).star *
    filtering * grouping * sorting

/-- **The kinds of the clauses of a query**, which may be unfinished. -/
def clauseOrder : RegularExpression StepKind :=
  optional (selecting * optional (char fromTable * joining.star * filtering * grouping * sorting))

end StepKind

/-! ## First letters of words -/

section FirstLetter

open RegularExpression

variable {a b : StepKind} {w : List StepKind} {p q r : RegularExpression StepKind}

theorem cons_mem_char_mul : a :: w ∈ (char b * p).matches' ↔ a = b ∧ w ∈ p.matches' := by
  rw [matches'_mul, matches'_char, Language.mem_mul]
  constructor
  · rintro ⟨u, hu, v, hv, huv⟩
    obtain rfl : u = [b] := hu
    obtain ⟨rfl, rfl⟩ := List.cons_eq_cons.mp huv
    exact ⟨rfl, hv⟩
  · rintro ⟨rfl, hw⟩
    exact ⟨[a], rfl, w, hw, rfl⟩

theorem mem_mul_assoc : w ∈ (p * q * r).matches' ↔ w ∈ (p * (q * r)).matches' := by
  simp only [matches'_mul, mul_assoc]

theorem mem_add_mul :
    w ∈ ((p + q) * r).matches' ↔ w ∈ (p * r).matches' ∨ w ∈ (q * r).matches' := by
  rw [matches'_mul, matches'_add, add_mul, Language.mem_add]
  rfl

theorem mem_star_mul :
    w ∈ (p.star * q).matches' ↔ w ∈ (p * (p.star * q)).matches' ∨ w ∈ q.matches' := by
  have hstar : p.star.matches' = 1 + p.matches' * p.star.matches' :=
    (Language.one_add_self_mul_kstar_eq_kstar _).symm
  rw [matches'_mul, hstar, add_mul, one_mul, Language.mem_add, or_comm, mul_assoc]
  rfl

theorem mem_optional_mul :
    w ∈ (StepKind.optional p * q).matches' ↔ w ∈ (p * q).matches' ∨ w ∈ q.matches' := by
  rw [StepKind.optional, mem_add_mul, or_comm, matches'_mul 1, matches'_epsilon, one_mul]

theorem cons_mem_optional : a :: w ∈ (StepKind.optional p).matches' ↔ a :: w ∈ p.matches' := by
  rw [StepKind.optional, matches'_add, Language.mem_add]
  exact or_iff_right (List.cons_ne_nil a w)

end FirstLetter

/-! ## What may follow a stage -/

namespace Stage

open StepKind (optional selecting joining filtering grouping sorting grammar clauseOrder)

variable {s t : Stage} {k : StepKind} {ks w : List StepKind}

/-- The stage that steps lead to, if every stage on the way has its step. -/
def after? (s : Stage) : List StepKind → Option Stage
  | [] => some s
  | k :: ks => (s.next? k).bind fun t => t.after? ks

/-- What makes a query whole from a stage on. -/
def rest : Stage → RegularExpression StepKind
  | start => grammar
  | select => char StepKind.fromTable * rest.afterSource
  | fromTable => rest.afterSource
  | join => char StepKind.on * rest.afterSource
  | filter => grouping * sorting
  | groupBy => optional (char StepKind.having) * sorting
  | having => sorting
  | orderBy => optional (char StepKind.limit * optional (char StepKind.offset))
  | limit => optional (char StepKind.offset)
  | offset => 1
where
  afterSource : RegularExpression StepKind :=
    (joining * char StepKind.on + char StepKind.joins).star * (filtering * (grouping * sorting))

/-- The steps make a query whole from a stage on. -/
def Completes (s : Stage) (w : List StepKind) : Prop := w ∈ s.rest.matches'

theorem completes_start_cons : Completes start (k :: ks) ↔
    (k = .select ∨ k = .selectDistinct ∨ k = .selectAll ∨ k = .selectDistinctAll) ∧
      Completes select ks := by
  unfold Completes rest grammar selecting
  simp only [mem_mul_assoc, mem_add_mul, cons_mem_char_mul]
  tauto

theorem completes_select_cons :
    Completes select (k :: ks) ↔ k = .fromTable ∧ Completes fromTable ks :=
  cons_mem_char_mul

theorem completes_join_cons : Completes join (k :: ks) ↔ k = .on ∧ Completes fromTable ks :=
  cons_mem_char_mul

theorem completes_having_cons : Completes having (k :: ks) ↔ k = .orderBy ∧ Completes orderBy ks :=
  cons_mem_optional.trans cons_mem_char_mul

theorem completes_orderBy_cons : Completes orderBy (k :: ks) ↔ k = .limit ∧ Completes limit ks :=
  cons_mem_optional.trans cons_mem_char_mul

theorem completes_limit_cons : Completes limit (k :: ks) ↔ k = .offset ∧ Completes offset ks :=
  cons_mem_optional.trans List.cons_eq_cons

theorem completes_offset_cons : ¬ Completes offset (k :: ks) := List.cons_ne_nil k ks

theorem completes_groupBy_cons : Completes groupBy (k :: ks) ↔
    k = .having ∧ Completes having ks ∨ Completes having (k :: ks) := by
  unfold Completes rest
  rw [mem_optional_mul, cons_mem_char_mul]

theorem completes_filter_cons : Completes filter (k :: ks) ↔
    k = .groupBy ∧ Completes groupBy ks ∨ Completes having (k :: ks) := by
  unfold Completes rest grouping
  rw [mem_optional_mul, mem_mul_assoc, cons_mem_char_mul]

theorem completes_fromTable_cons : Completes fromTable (k :: ks) ↔
    (k = .join ∨ k = .leftJoin ∨ k = .rightJoin) ∧ Completes join ks ∨
      k = .joins ∧ Completes fromTable ks ∨ k = .filter ∧ Completes filter ks ∨
      Completes filter (k :: ks) := by
  unfold Completes rest rest.afterSource filtering joining
  rw [mem_star_mul]
  simp only [mem_add_mul, mem_mul_assoc, mem_optional_mul, cons_mem_char_mul]
  tauto

/-- **A step of a stage is a letter off the words that make the query whole.** -/
theorem completes_cons : Completes s (k :: ks) ↔ ∃ t, s.next? k = some t ∧ Completes t ks := by
  cases s with
  | start => rw [completes_start_cons]; cases k <;> simp [next?]
  | select => rw [completes_select_cons]; cases k <;> simp [next?]
  | fromTable =>
    rw [completes_fromTable_cons, completes_filter_cons, completes_having_cons]
    cases k <;> simp [next?]
  | join => rw [completes_join_cons]; cases k <;> simp [next?]
  | filter => rw [completes_filter_cons, completes_having_cons]; cases k <;> simp [next?]
  | groupBy => rw [completes_groupBy_cons, completes_having_cons]; cases k <;> simp [next?]
  | having => rw [completes_having_cons]; cases k <;> simp [next?]
  | orderBy => rw [completes_orderBy_cons]; cases k <;> simp [next?]
  | limit => rw [completes_limit_cons]; cases k <;> simp [next?]
  | offset => cases k <;> simp [next?, completes_offset_cons]

instance : Decidable (Completes s w) := inferInstanceAs (Decidable (w ∈ s.rest.matches'))

/-- No stage is a dead end. -/
theorem exists_completes (s : Stage) : ∃ w, Completes s w := by
  cases s with
  | start => exact ⟨[.selectAll, .fromTable], by decide⟩
  | select => exact ⟨[.fromTable], by decide⟩
  | join => exact ⟨[.on], by decide⟩
  | fromTable | filter | groupBy | having | orderBy | limit | offset => exact ⟨[], by decide⟩

theorem isSome_after?_cons :
    (s.after? (k :: ks)).isSome ↔ ∃ t, s.next? k = some t ∧ (t.after? ks).isSome := by
  rw [after?]
  cases s.next? k <;> simp

/-- **The stages accept what begins a word of the grammar**, from any stage on. -/
theorem isSome_after?_iff : (s.after? ks).isSome ↔ ∃ w, Completes s w ∧ ks <+: w := by
  induction ks generalizing s with
  | nil =>
    obtain ⟨w, hw⟩ := exists_completes s
    exact ⟨fun _ => ⟨w, hw, List.nil_prefix⟩, fun _ => rfl⟩
  | cons k ks ih =>
    rw [isSome_after?_cons]
    constructor
    · rintro ⟨t, ht, hafter⟩
      obtain ⟨w, hw, hprefix⟩ := ih.mp hafter
      exact ⟨k :: w, completes_cons.mpr ⟨t, ht, hw⟩, List.cons_prefix_cons.mpr ⟨rfl, hprefix⟩⟩
    · rintro ⟨w, hw, v, rfl⟩
      obtain ⟨t, ht, hrest⟩ := completes_cons.mp hw
      exact ⟨t, ht, ih.mpr ⟨ks ++ v, hrest, List.prefix_append ks v⟩⟩

/-! ## What clauses may follow a stage -/

/-- The clauses that may follow a stage. A join is there whether or not its condition is. -/
def outline : Stage → RegularExpression StepKind
  | start => clauseOrder
  | select =>
    optional (char StepKind.fromTable * joining.star * filtering * grouping * sorting)
  | fromTable | join => joining.star * (filtering * (grouping * sorting))
  | s => s.rest

/-- Clauses of these kinds may follow a stage. -/
def MayFollow (s : Stage) (w : List StepKind) : Prop := w ∈ s.outline.matches'

instance : Decidable (MayFollow s w) := inferInstanceAs (Decidable (w ∈ s.outline.matches'))

theorem mayFollow_nil (s : Stage) : MayFollow s [] := by
  cases s <;> decide

theorem mayFollow_start_cons : MayFollow start (k :: ks) ↔
    (k = .select ∨ k = .selectDistinct ∨ k = .selectAll ∨ k = .selectDistinctAll) ∧
      MayFollow select ks := by
  unfold MayFollow outline clauseOrder selecting
  rw [cons_mem_optional]
  simp only [mem_add_mul, cons_mem_char_mul]
  tauto

theorem mayFollow_select_cons :
    MayFollow select (k :: ks) ↔ k = .fromTable ∧ MayFollow fromTable ks := by
  unfold MayFollow outline
  rw [cons_mem_optional, mem_mul_assoc, mem_mul_assoc, mem_mul_assoc, cons_mem_char_mul]

theorem mayFollow_fromTable_cons : MayFollow fromTable (k :: ks) ↔
    (k = .join ∨ k = .leftJoin ∨ k = .rightJoin) ∧ MayFollow fromTable ks ∨
      k = .filter ∧ MayFollow filter ks ∨ MayFollow filter (k :: ks) := by
  unfold MayFollow outline filtering joining
  rw [mem_star_mul]
  simp only [mem_add_mul, mem_optional_mul, cons_mem_char_mul]
  unfold rest
  tauto

/-- A step with one clause of its own kind adds a clause that may stand there. -/
theorem mayFollow_of_next? (h : s.next? k = some t) (hon : k ≠ .on) (hjoins : k ≠ .joins)
    (hw : MayFollow t w) : MayFollow s (k :: w) := by
  cases s with
  | start => cases k <;> cases h <;> exact mayFollow_start_cons.mpr ⟨by simp, hw⟩
  | select => cases k <;> cases h; exact mayFollow_select_cons.mpr ⟨rfl, hw⟩
  | fromTable =>
    rw [mayFollow_fromTable_cons]
    cases k with
    | join | leftJoin | rightJoin => cases h; exact .inl ⟨by simp, hw⟩
    | joins => exact absurd rfl hjoins
    | filter => cases h; exact .inr (.inl ⟨rfl, hw⟩)
    | groupBy => cases h; exact .inr (.inr (completes_filter_cons.mpr (.inl ⟨rfl, hw⟩)))
    | orderBy =>
      cases h
      exact .inr (.inr (completes_filter_cons.mpr (.inr (completes_having_cons.mpr ⟨rfl, hw⟩))))
    | _ => cases h
  | join => cases k <;> cases h; exact absurd rfl hon
  -- from here on there are no joins, and the clauses are those of the steps
  | filter | groupBy | having | orderBy | limit | offset =>
    have hrest : Completes t w := by cases k <;> cases h <;> exact hw
    have hcons := completes_cons.mpr ⟨t, h, hrest⟩
    exact hcons

end Stage

end SqlBuilder
