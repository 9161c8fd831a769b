import SqlBuilder.Condition
import SqlBuilder.Proofs.Value.Leaves

/-!
# Which literals a column is compared with

A column holds a literal against its type when the condition is built, leaf by leaf. `admits_iff`
says what a type admits, for literals of any nesting. A list of literals is checked from left to
right, and the first one that does not fit is the one that is reported (`checkAll_eq_error_iff`).

`Column.literals_checked` puts this together for the ways of comparing a column with literals. A
column that was declared with a type never refuses a literal of that type.
-/

namespace SqlBuilder

/-! ## Types and leaves -/

namespace ScalarType

variable {type : ScalarType} {v : Value} {items : List Value}

/-- The kinds of leaves that a type is for. An integer is taken for a float. -/
def kinds : ScalarType → List String
  | any => ["bool", "int", "float", "text"]
  | bool => ["bool"]
  | int => ["int"]
  | float => ["float", "int"]
  | text => ["text"]

theorem admitsAll_eq_all (type : ScalarType) (items : List Value) :
    type.admitsAll items = items.all type.admits := by
  induction items with
  | nil => rfl
  | cons item items ih => rw [admitsAll, ih, List.all_cons]

theorem admits_array :
    type.admits (.array items) = true ↔ ∀ item ∈ items, type.admits item = true := by
  rw [admits, admitsAll_eq_all, Bool.or_eq_true, beq_iff_eq, List.all_eq_true]
  constructor
  · rintro (rfl | h)
    · exact fun item _ => any_admits item
    · exact h
  · exact .inr

/-- A literal fits when its leaves do. -/
theorem admits_iff_leaves :
    type.admits v = true ↔ ∀ leaf ∈ v.leaves, type.admits leaf = true := by
  induction v using Value.arrayInduction with
  | array items ih =>
    rw [admits_array, Value.leaves_array, List.forall_mem_flatMap]
    exact forall_congr' fun item => forall_congr' (ih item)
  | null | bool | int | float | text => simp [Value.leaves]

theorem admits_eq_false_iff :
    type.admits v = false ↔ ∃ leaf ∈ v.leaves, type.admits leaf = false := by
  rw [← Bool.not_eq_true, admits_iff_leaves]
  simp only [Classical.not_forall, exists_prop, Bool.not_eq_true]

/-- **What a type admits**: anything if it is `any`, and else literals whose leaves are null or of
its kinds. -/
theorem admits_iff :
    type.admits v = true ↔
      type = any ∨ ∀ leaf ∈ v.leaves, leaf = .null ∨ leaf.kind ∈ type.kinds := by
  induction v using Value.arrayInduction with
  | array items ih =>
    rw [admits_array, Value.leaves_array, List.forall_mem_flatMap]
    constructor
    · intro h
      by_cases hany : type = any
      · exact .inl hany
      · exact .inr fun item hitem => ((ih item hitem).mp (h item hitem)).resolve_left hany
    · intro h item hitem
      exact (ih item hitem).mpr (h.imp_right fun hleaves => hleaves item hitem)
  | null | bool | int | float | text =>
    cases type <;> simp [admits, Value.leaves, kinds, Value.kind]

end ScalarType

/-! ## Checking literals in order -/

namespace Column

variable {c : Column} {v : Value} {vs : List Value} {e : BuildError}

/-- The first literal of a list that has a leaf which the column's type does not admit. -/
def Refuses (c : Column) (vs : List Value) (v : Value) : Prop :=
  ∃ before after, vs = before ++ v :: after ∧
    (∀ u ∈ before, ∀ leaf ∈ u.leaves, c.type.admits leaf = true) ∧
    ∃ leaf ∈ v.leaves, c.type.admits leaf = false

theorem check_of_admits (h : c.type.admits v = true) : c.check v = .ok () := if_pos h

theorem check_of_not_admits (h : c.type.admits v = false) : c.check v = .error (.mismatch c v) :=
  if_neg (Bool.eq_false_iff.mp h)

theorem refuses_cons_of_admits {u : Value} (h : c.type.admits u = true) :
    c.Refuses (u :: vs) v ↔ c.Refuses vs v := by
  have hu := ScalarType.admits_iff_leaves.mp h
  constructor
  · rintro ⟨before, after, hsplit, hbefore, leaf, hleaf, hnot⟩
    rcases List.cons_eq_append_iff.mp hsplit with ⟨rfl, hcons⟩ | ⟨before, rfl, hsplit⟩
    · obtain ⟨rfl, -⟩ := List.cons_eq_cons.mp hcons
      exact absurd (hu leaf hleaf) (Bool.eq_false_iff.mp hnot)
    · refine ⟨before, after, ?_, (List.forall_mem_cons.mp hbefore).2, leaf, hleaf, hnot⟩
      exact (List.cons_eq_cons.mp hsplit).2
  · rintro ⟨before, after, rfl, hbefore, hnot⟩
    exact ⟨u :: before, after, rfl, List.forall_mem_cons.mpr ⟨hu, hbefore⟩, hnot⟩

theorem refuses_cons_of_not_admits {u : Value} (h : c.type.admits u = false) :
    c.Refuses (u :: vs) v ↔ v = u := by
  have hu := ScalarType.admits_eq_false_iff.mp h
  constructor
  · rintro ⟨before, after, hsplit, hbefore, -⟩
    rcases List.cons_eq_append_iff.mp hsplit with ⟨rfl, hcons⟩ | ⟨before, rfl, -⟩
    · exact (List.cons_eq_cons.mp hcons).1
    · have hadmits := ScalarType.admits_iff_leaves.mpr (List.forall_mem_cons.mp hbefore).1
      exact absurd hadmits (Bool.eq_false_iff.mp h)
  · rintro rfl
    exact ⟨[], vs, rfl, fun _ hmem => absurd hmem List.not_mem_nil, hu⟩

theorem checkAll_cons_of_admits {u : Value} (h : c.type.admits u = true) :
    c.checkAll (u :: vs) = c.checkAll vs := by
  rw [checkAll, check_of_admits h]
  rfl

theorem checkAll_cons_of_not_admits {u : Value} (h : c.type.admits u = false) :
    c.checkAll (u :: vs) = .error (.mismatch c u) := by
  rw [checkAll, check_of_not_admits h]
  rfl

/-- **The first literal that does not fit is reported.** -/
theorem checkAll_eq_error_iff :
    c.checkAll vs = .error e ↔ ∃ v, c.Refuses vs v ∧ e = .mismatch c v := by
  induction vs with
  | nil =>
    constructor
    · exact nofun
    · rintro ⟨v, ⟨before, after, hsplit, -⟩, -⟩
      exact absurd hsplit (by simp)
  | cons u vs ih =>
    cases h : c.type.admits u with
    | true => simp only [checkAll_cons_of_admits h, ih, refuses_cons_of_admits h]
    | false =>
      rw [checkAll_cons_of_not_admits h]
      simp only [refuses_cons_of_not_admits h, exists_eq_left]
      exact ⟨fun he => (Except.error.inj he).symm, fun he => congrArg Except.error he.symm⟩

theorem checkAll_eq_ok_iff : c.checkAll vs = .ok () ↔
    ∀ v ∈ vs, ∀ leaf ∈ v.leaves, c.type.admits leaf = true := by
  induction vs with
  | nil => exact ⟨fun _ _ h => absurd h List.not_mem_nil, fun _ => rfl⟩
  | cons u vs ih =>
    rw [List.forall_mem_cons, ← ScalarType.admits_iff_leaves]
    cases h : c.type.admits u with
    | true => simp only [checkAll_cons_of_admits h, ih, true_and]
    | false => simp [checkAll_cons_of_not_admits h]

/-- Some literal is refused exactly when some leaf is not admitted. -/
theorem exists_refuses_iff :
    (∃ v, c.Refuses vs v) ↔ ∃ v ∈ vs, ∃ leaf ∈ v.leaves, c.type.admits leaf = false := by
  induction vs with
  | nil =>
    constructor
    · rintro ⟨v, before, after, hsplit, -⟩
      exact absurd hsplit (by simp)
    · rintro ⟨v, hmem, -⟩
      exact absurd hmem List.not_mem_nil
  | cons u vs ih =>
    simp only [List.mem_cons, exists_eq_or_imp, ← ScalarType.admits_eq_false_iff] at ih ⊢
    cases h : c.type.admits u with
    | true => simp only [refuses_cons_of_admits h, ih, Bool.true_eq_false, false_or]
    | false => simp only [refuses_cons_of_not_admits h, exists_eq, true_or]

/-- What becomes of a comparison of the column with literals, which is the condition `k` if they
are admitted. -/
structure Checks (c : Column) (vs : List Value) (k : Condition)
    (result : Except BuildError Condition) : Prop where
  fails : (∃ e, result = .error e) ↔ ∃ v ∈ vs, ∃ leaf ∈ v.leaves, c.type.admits leaf = false
  /-- The error is about the first literal that does not fit. -/
  reported : ∀ e, result = .error e → ∃ v, c.Refuses vs v ∧ e = .mismatch c v
  succeeds : (∀ v ∈ vs, ∀ leaf ∈ v.leaves, c.type.admits leaf = true) → result = .ok k

theorem checks_checkAll (c : Column) (vs : List Value) (k : Condition) :
    c.Checks vs k ((c.checkAll vs).map fun _ => k) := by
  have herror : ∀ e, (c.checkAll vs).map (fun _ => k) = .error e ↔ c.checkAll vs = .error e := by
    intro e
    cases c.checkAll vs <;> simp [Except.map]
  refine ⟨?_, fun e h => checkAll_eq_error_iff.mp ((herror e).mp h), fun h => ?_⟩
  · simp only [herror, checkAll_eq_error_iff, ← exists_refuses_iff]
    exact ⟨fun ⟨_, v, hv, _⟩ => ⟨v, hv⟩, fun ⟨v, hv⟩ => ⟨_, v, hv, rfl⟩⟩
  · rw [checkAll_eq_ok_iff.mpr h]
    rfl

end Column

/-! ## Conditions with literals -/

namespace Expr

variable {c : Column} {op : Comparison}

/-- A pattern is not checked. -/
theorem compareLiteral_of_isPattern (h : op.isPattern = true) (left : Expr) (v : Value) :
    left.compareLiteral op v = .ok (.compareLiteral left op v) := by
  unfold compareLiteral
  rw [h]
  cases left <;> rfl

theorem compareLiteral_column (h : op.isPattern = false) (c : Column) (v : Value) :
    (column c).compareLiteral op v =
      (c.checkAll [v]).map fun _ => .compareLiteral (column c) op v := by
  unfold compareLiteral
  simp only [h, Column.checkAll, Bool.false_eq_true, ↓reduceIte]
  cases c.check v <;> rfl

theorem inLiterals_column (c : Column) (vs : List Value) :
    (column c).inLiterals vs = (c.checkAll vs).map fun _ => .inLiterals (column c) vs := by
  unfold inLiterals
  dsimp only
  cases c.checkAll vs <;> rfl

end Expr

theorem DeclaredType.admits_leaves (type : DeclaredType) (x : type.Operand) :
    ∀ leaf ∈ (type.toValue x).leaves, type.scalar.admits leaf = true :=
  ScalarType.admits_iff_leaves.mp (type.admits_toValue x)

/-- **Literals are checked against a column's type, leaf by leaf, and nothing else is refused.**

A type admits a literal exactly when it is `any`, or every leaf of the literal is null or of its
kinds; so arrays without leaves, or of nulls, always pass. Comparing a column with a literal, or
testing it for membership in a list of literals, fails exactly when some leaf is not admitted. The
error names the first literal that has such a leaf, by its kind and its text. Otherwise the
condition has the literals that were given, in order. Patterns are not checked, and a column that
was declared with a type never fails on literals of that type. -/
theorem Column.literals_checked :
    (∀ (type : ScalarType) (v : Value), type.admits v = true ↔
      type = .any ∨ ∀ leaf ∈ v.leaves, leaf = .null ∨ leaf.kind ∈ type.kinds) ∧
    (∀ (type : ScalarType) (v : Value), (∀ leaf ∈ v.leaves, leaf = .null) →
      type.admits v = true) ∧
    (∀ (c : Column) (op : Comparison) (v : Value), op.isPattern = false →
      c.Checks [v] (.compareLiteral (.column c) op v) ((Expr.column c).compareLiteral op v)) ∧
    (∀ (c : Column) (vs : List Value),
      c.Checks vs (.inLiterals (.column c) vs) ((Expr.column c).inLiterals vs)) ∧
    (∀ (c : Column) (v : Value), (BuildError.mismatch c v).message =
      "cannot compare " ++ c.type.name ++ " column " ++ c.qualifiedName ++ " with " ++ v.kind ++
        " literal " ++ v.display) ∧
    (∀ (c : Column) (op : Comparison) (v : Value), op.isPattern = true →
      (Expr.column c).compareLiteral op v = .ok (.compareLiteral (.column c) op v)) ∧
    ∀ (c : Column) (type : DeclaredType), c.type = type.scalar →
      (∀ (op : Comparison) (x : type.Operand), (Expr.column c).compareLiteral op (type.toValue x) =
        .ok (.compareLiteral (.column c) op (type.toValue x))) ∧
      ∀ xs : List type.Operand, (Expr.column c).inLiterals (xs.map type.toValue) =
        .ok (.inLiterals (.column c) (xs.map type.toValue)) := by
  have hcompare (c : Column) (op : Comparison) (v : Value) (h : op.isPattern = false) :
      c.Checks [v] (.compareLiteral (.column c) op v) ((Expr.column c).compareLiteral op v) := by
    rw [Expr.compareLiteral_column h]
    exact c.checks_checkAll [v] _
  have hlist (c : Column) (vs : List Value) :
      c.Checks vs (.inLiterals (.column c) vs) ((Expr.column c).inLiterals vs) := by
    rw [Expr.inLiterals_column]
    exact c.checks_checkAll vs _
  refine ⟨fun _ _ => ScalarType.admits_iff, fun type v h => ?_, hcompare, hlist, fun _ _ => rfl,
    fun c op v h => Expr.compareLiteral_of_isPattern h _ v, fun c type htype => ⟨?_, ?_⟩⟩
  · exact ScalarType.admits_iff.mpr (.inr fun leaf hleaf => .inl (h leaf hleaf))
  · intro op x
    cases h : op.isPattern with
    | true => exact Expr.compareLiteral_of_isPattern h _ _
    | false =>
      refine (hcompare c op _ h).succeeds (List.forall_mem_singleton.mpr ?_)
      rw [htype]
      exact type.admits_leaves x
  · intro xs
    refine (hlist c _).succeeds (List.forall_mem_map.mpr fun x _ => ?_)
    rw [htype]
    exact type.admits_leaves x

/-- A list whose third literal is an array with a text inside, for a column of integers; an array of
nulls and a pattern for the same column; and a declared type that is nullable twice. -/
theorem Column.literals_checked_nested :
    let id : Column := (Table.ofName "users").column "id" .int
    let odd : Value := .array [.int 2, .array [.text "x"]]
    let type : DeclaredType := .nullable (.nullable .int64)
    let xs : List type.Operand := [some (some (5 : Int64)), some none, none]
    (Expr.column id).inLiterals [.int 1, .array [.null, .array []], odd, .bool true] =
        .error (.mismatch id odd) ∧
      (BuildError.mismatch id odd).message =
        "cannot compare Int column users.id with array literal [2, ['x']]" ∧
      ScalarType.int.admits (.array [.null, .array []]) = true ∧
      (Expr.column id).compareLiteral .ge (.array [.int 7, .array []]) =
        .ok (.compareLiteral (.column id) .ge (.array [.int 7, .array []])) ∧
      (Expr.column id).compareLiteral .like (.text "x") =
        .ok (.compareLiteral (.column id) .like (.text "x")) ∧
      (Expr.column id).inLiterals (xs.map type.toValue) =
        .ok (.inLiterals (.column id) [.int 5, .null, .null]) := by
  intro id odd type xs
  obtain ⟨-, hnulls, hcompare, hlist, hmessage, hpattern, htyped⟩ := Column.literals_checked
  refine ⟨?_, ?_, hnulls _ _ (by decide), (hcompare id .ge _ rfl).succeeds (by decide),
    hpattern id .like _ rfl, (htyped id type rfl).2 xs⟩
  · obtain ⟨e, he⟩ := (hlist id [.int 1, .array [.null, .array []], odd, .bool true]).fails.mpr
      ⟨odd, by simp, .text "x", by simp [odd, Value.leaves, Value.leavesOf], by decide⟩
    rw [he, show e = .mismatch id odd from Except.error.inj (he.symm.trans rfl)]
  · rw [hmessage]
    decide +kernel

end SqlBuilder
