import SqlBuilder.Proofs.Identities
import SqlBuilder.Proofs.JoinGraph.Congruence
import SqlBuilder.Session

/-!
# Equality of tables

Tables are compared by their keys: name, alias, and the identity of the query behind a derived
table. A hash of a table is made of the first two only, so equal tables have equal hashes, and a
look-up that passes over entries with another hash misses nothing (`TableMap.get?_bucket`).

Equal tables are referred to alike (`Alike`) and are one to a join graph (`SameAnswers`), whatever
is behind them. What is written for a derived table is the query behind it. If the identities of
queries tell their clauses (`Consistent`), equal tables are one table (`eq_of_key_eq`), and so it is
among all tables of a program. Unequal are tables that differ in any of the parts of the key.

`beq_laws` puts this together.
-/

namespace SqlBuilder

/-- The parts of a table that its hash is made of. -/
def Table.hashed (t : Table) : String × Option String := (t.name, t.alias?)

/-- The entries whose tables have the hash of a table. -/
def TableMap.bucket {α β : Type} [DecidableEq β] (hash : String × Option String → β)
    (m : TableMap α) (t : Table) : TableMap α :=
  m.filter fun entry => decide (hash entry.1.hashed = hash t.hashed)

namespace Table

variable {a b t : Table} {ctx : Context}

/-- What a statement refers to the tables by is the same. -/
structure Alike (a b : Table) : Prop where
  hashed : a.hashed = b.hashed
  isDerived : a.isDerived = b.isDerived
  exposedName : a.exposedName = b.exposedName
  /-- The name is written with the same parameters after it. -/
  reference : ∀ (s : Session) ctx, s.write ctx (.tableRef a) = s.write ctx (.tableRef b)
  /-- So are columns of one name and alias, whatever types they were declared with. -/
  columns : ∀ (s : Session) ctx name type type' alias?,
    s.write ctx (.expr (.column ⟨name, some a, type, alias?⟩)) =
      s.write ctx (.expr (.column ⟨name, some b, type', alias?⟩))

theorem key_eq_iff :
    a.key = b.key ↔ a.name = b.name ∧ a.alias? = b.alias? ∧ a.queryId? = b.queryId? := by
  rw [key, key, Key.mk.injEq]

theorem hashed_congr (h : a.key = b.key) : a.hashed = b.hashed := by
  obtain ⟨hname, halias, -⟩ := key_eq_iff.mp h
  rw [hashed, hashed, hname, halias]

theorem text_column_congr (h : a.key = b.key) (name : String) (type type' : ScalarType)
    (alias? : Option String) (ctx : Context) :
    Column.text ⟨name, some a, type, alias?⟩ ctx =
      Column.text ⟨name, some b, type', alias?⟩ ctx := by
  have hname : Column.qualifiedName ⟨name, some a, type, alias?⟩ =
      Column.qualifiedName ⟨name, some b, type', alias?⟩ :=
    congrArg (· ++ "." ++ name) (exposedName_congr h)
  unfold Column.text
  rw [hname]

/-- **Equal tables are referred to alike**, whatever is behind them. -/
theorem Alike.of_key_eq (h : a.key = b.key) : a.Alike b where
  hashed := hashed_congr h
  isDerived := congrArg Option.isSome (key_eq_iff.mp h).2.2
  exposedName := exposedName_congr h
  reference s ctx := by
    have htemplate : Node.template ctx (.tableRef a) = Node.template ctx (.tableRef b) := by
      rw [Node.template, Node.template, exposedName_congr h]
    unfold Session.write
    rw [htemplate]
  columns s ctx name type type' alias? :=
    congrArg (fun text => (text ++ "", s)) (text_column_congr h name type type' alias? ctx)

/-- **If identities tell the clauses, equal tables are one table.** -/
theorem eq_of_key_eq (hplan : a.Consistent b) (h : a.key = b.key) : a = b := by
  obtain ⟨hname, halias, hid⟩ := key_eq_iff.mp h
  obtain ⟨name, alias?, source⟩ := a
  obtain ⟨name', alias?', source'⟩ := b
  obtain rfl : name = name' := hname
  obtain rfl : alias? = alias?' := halias
  congr 1
  cases source with
  | base =>
    cases source' with
    | base => rfl
    | derived q' => exact nomatch hid
  | derived q =>
    cases source' with
    | base => exact nomatch hid
    | derived q' =>
      obtain ⟨id, clauses⟩ := q
      obtain ⟨id', clauses'⟩ := q'
      obtain rfl : id = id' := Option.some.inj hid
      obtain rfl : clauses = clauses' := hplan _ _ rfl rfl rfl
      rfl

/-! ## Unequal tables -/

theorem beq_eq_false_iff : (a == b) = false ↔ a.name ≠ b.name ∨ a.alias? ≠ b.alias? ∨
    a.isDerived ≠ b.isDerived ∨ a.queryId? ≠ b.queryId? := by
  rw [Bool.eq_false_iff, ne_eq, beq_iff, key_eq_iff]
  have hderived : a.queryId? = b.queryId? → a.isDerived = b.isDerived := by
    intro h
    rw [isDerived, isDerived, h]
  tauto

theorem beq_aliased_iff (t : Table) (label label' : String) :
    (t.aliased label == t.aliased label') = true ↔ label = label' := by
  rw [beq_iff, key_eq_iff]
  constructor
  · exact fun h => Option.some.inj h.2.1
  · rintro rfl
    exact ⟨rfl, rfl, rfl⟩

theorem beq_aliased_of_none (ht : t.alias? = none) (label : String) :
    (t == t.aliased label) = false := by
  refine beq_eq_false_iff.mpr (.inr (.inl ?_))
  rw [ht]
  exact nofun

end Table

/-- **A look-up among the entries with the same hash finds what a look-up among all finds.** -/
theorem TableMap.get?_bucket {α β : Type} [DecidableEq β] (hash : String × Option String → β)
    (m : TableMap α) (t : Table) : (m.bucket hash t).get? t = m.get? t := by
  unfold bucket
  induction m with
  | nil => rfl
  | cons entry m ih =>
    rw [List.filter_cons, get?_cons]
    by_cases hkey : entry.1.key = t.key
    · have hhash : hash entry.1.hashed = hash t.hashed := by rw [Table.hashed_congr hkey]
      rw [if_pos (decide_eq_true hhash), get?_cons, if_pos hkey, if_pos hkey]
    · rw [if_neg hkey]
      split_ifs
      · rw [get?_cons, if_neg hkey, ih]
      · exact ih

namespace Table

/-- **Equality of tables**: it is an equivalence; equal tables have equal hashes, are referred to
alike and are one to a join graph; and they are written alike, being one table, if identities tell
the clauses of queries. It fails exactly where a part of the key differs: copies of a table under
aliases are equal when the aliases are, and no two derived tables that a program asked for are
equal. Among all tables of a program identities do tell the clauses. -/
theorem beq_laws :
    Equivalence (fun a b : Table => (a == b) = true) ∧
    (∀ a b : Table, (a == b) = true → a.Alike b ∧ JoinGraph.SameAnswers a b) ∧
    (∀ (α β : Type) [DecidableEq β] (hash : String × Option String → β) (m : TableMap α)
      (a b : Table), (a == b) = true → (m.bucket hash a).get? b = m.get? a) ∧
    (∀ a b : Table, a.Consistent b → (a == b) = true →
      a = b ∧ ∀ (s : Session) ctx, s.write ctx (.table a) = s.write ctx (.table b)) ∧
    (∀ a b : Table, (a == b) = false ↔ a.name ≠ b.name ∨ a.alias? ≠ b.alias? ∨
      a.isDerived ≠ b.isDerived ∨ a.queryId? ≠ b.queryId?) ∧
    (∀ (t : Table) (label : String), t.alias? = none → (t == t.aliased label) = false) ∧
    (∀ (t : Table) (label label' : String),
      (t.aliased label == t.aliased label') = true ↔ label = label') ∧
    ∀ program count n, ∃ given, (Build.grants program count).run n = .ok (given, n + count) ∧
      (given.filterMap Grant.table?).Pairwise (fun a b => (a == b) = false) ∧
      ∀ a b : Table, a.Obtained given → b.Obtained given → a.Consistent b := by
  refine ⟨⟨fun _ => BEq.rfl, fun h => BEq.symm h, fun h k => BEq.trans h k⟩, ?_, ?_, ?_,
    fun _ _ => beq_eq_false_iff, fun _ label ht => beq_aliased_of_none ht label,
    beq_aliased_iff, ?_⟩
  · intro a b h
    exact ⟨.of_key_eq (beq_iff.mp h), .of_key_eq (beq_iff.mp h)⟩
  · intro α β _ hash m a b h
    rw [← TableMap.get?_congr (beq_iff.mp h), TableMap.get?_bucket]
  · intro a b hplan h
    obtain rfl := eq_of_key_eq hplan (beq_iff.mp h)
    exact ⟨rfl, fun _ _ => rfl⟩
  · intro program count n
    obtain ⟨given, hrun, hids⟩ := Build.grants_run program count n
    have hnodup := nodup_ids hids
    exact ⟨given, hrun, pairwise_tables hnodup, fun a b ha hb => ha.consistent hnodup hb⟩

/-- A derived table, a copy that has its alias again, and a second derived table over the same query
under the same alias. -/
theorem beq_laws_same_query :
    let clauses : List Clause := [.select false [], .fromTable (.ofName "users")]
    let first := derived ⟨0, clauses⟩ "d"
    let copy := (first.aliased "").aliased "d"
    let second := derived ⟨1, clauses⟩ "d"
    (first == copy) = true ∧ first.Alike copy ∧ first = copy ∧ (first == second) = false ∧
      (first == first.aliased "") = false := by
  intro clauses first copy second
  obtain ⟨-, halike, -, heq, hne, -, haliased, -⟩ := beq_laws
  have hcopy : (first == copy) = true := by decide
  have hplan : first.Consistent copy := fun q q' hq hq' _ => by
    rw [Source.derived.inj (hq.symm.trans hq')]
  refine ⟨hcopy, (halike _ _ hcopy).1, (heq _ _ hplan hcopy).1,
    (hne _ _).mpr (.inr (.inr (.inr (by decide)))), ?_⟩
  exact Bool.eq_false_iff.mpr fun h => absurd ((haliased first "d" "").mp h) (by decide)

end Table
end SqlBuilder
