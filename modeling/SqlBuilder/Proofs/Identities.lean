import Mathlib.Data.List.Nodup
import SqlBuilder.Build

/-!
# Identities that a program is given

A program asks for array literals, nested queries and derived tables (`Request`), and what it asks
for next may depend on everything it was given before (`Grant`). `Build.grants` makes a number of
its requests.

Requests do not fail, and each is given the next identity (`grants_run`, by induction on their
number). So two derived tables that a program asked for are never equal, whatever queries and
labels they were asked for with (`pairwise_tables`). Among all tables that a program can come by,
aliased copies included, an identity belongs to one query (`Obtained.consistent`).
-/

namespace SqlBuilder

/-- What a program can ask for that has an identity of its own. -/
inductive Request where
  | array (items : List Value)
  | query (clauses : List Clause)
  | table (clauses : List Clause) (label : String)

/-- What a program is given. -/
inductive Grant where
  | array (expr : Expr)
  | query (query : Subquery)
  | table (table : Table)

namespace Grant

/-- The identity in what was given. -/
def id? : Grant → Option Nat
  | array (.array id _) => some id
  | array _ => none
  | query q => some q.id
  | table t => t.queryId?

def table? : Grant → Option Table
  | table t => some t
  | _ => none

end Grant

namespace Request

def grant : Request → Build Grant
  | array items => return .array (← Expr.newArray items)
  | query clauses => return .query (← Subquery.ofClauses clauses)
  | table clauses label => return .table (← Table.ofClauses clauses label)

/-- What is given when `id` is the next identity. -/
def granted (id : Nat) : Request → Grant
  | array items => .array (.array id (.array items))
  | query clauses => .query ⟨id, clauses⟩
  | table clauses label => .table (.derived ⟨id, clauses⟩ label)

end Request

/-- So many requests of a program, each depending on what was given before. -/
def Build.grants (program : List Grant → Request) : Nat → Build (List Grant)
  | 0 => return []
  | count + 1 => do
    let given ← grants program count
    return given ++ [← (program given).grant]

/-- The tables that a program can come by: tables of the database, the derived tables that it was
given, and aliased copies. -/
inductive Table.Obtained (given : List Grant) : Table → Prop
  | ofName (name : String) : Obtained given (.ofName name)
  | granted {t : Table} (h : .table t ∈ given) : Obtained given t
  | aliased {t : Table} (label : String) (h : Obtained given t) : Obtained given (t.aliased label)

/-- The queries behind two tables are the same if their identities are. -/
def Table.Consistent (a b : Table) : Prop := ∀ q q', a.source = .derived q →
  b.source = .derived q' → q.id = q'.id → q.clauses = q'.clauses

variable {given : List Grant} {a b t : Table} {q : Subquery} {n count : Nat}

theorem Grant.table?_eq_some_iff {g : Grant} : g.table? = some t ↔ g = .table t := by
  cases g <;> simp [Grant.table?]

theorem Request.grant_run (r : Request) (n : Nat) : r.grant.run n = .ok (r.granted n, n + 1) := by
  cases r <;> rfl

theorem Request.id?_granted (r : Request) (n : Nat) : (r.granted n).id? = some n := by
  cases r <;> rfl

/-- **Each request of a program is given the next identity**, and none fails. -/
theorem Build.grants_run (program : List Grant → Request) (count n : Nat) :
    ∃ given, (grants program count).run n = .ok (given, n + count) ∧
      given.map Grant.id? = (List.range' n count).map some := by
  induction count with
  | zero => exact ⟨[], rfl, rfl⟩
  | succ count ih =>
    obtain ⟨given, hrun, hids⟩ := ih
    refine ⟨given ++ [(program given).granted (n + count)], ?_, ?_⟩
    · rw [grants, StateT.run_bind, hrun]
      change (StateT.run ((program given).grant >>= fun g => pure (given ++ [g])) (n + count)) = _
      rw [StateT.run_bind, Request.grant_run]
      rfl
    · rw [List.map_append, hids, List.range'_1_concat, List.map_append, List.map_singleton,
        List.map_singleton, Request.id?_granted]

theorem nodup_ids (h : given.map Grant.id? = (List.range' n count).map some) :
    (given.map Grant.id?).Nodup := by
  rw [h]
  exact List.Nodup.map (fun _ _ => Option.some.inj) List.nodup_range'

/-- **No two derived tables that a program asked for are equal.** -/
theorem pairwise_tables (h : (given.map Grant.id?).Nodup) :
    (given.filterMap Grant.table?).Pairwise fun a b => (a == b) = false := by
  rw [List.pairwise_filterMap]
  refine (List.pairwise_map.mp h).imp ?_
  intro g g' hne a ha b hb
  rw [Grant.table?_eq_some_iff.mp ha, Grant.table?_eq_some_iff.mp hb] at hne
  exact Bool.eq_false_iff.mpr fun h => hne (congrArg Table.Key.queryId? (Table.beq_iff.mp h))

theorem Table.queryId?_of_source (h : t.source = .derived q) : t.queryId? = some q.id := by
  rw [queryId?, h]

theorem Table.Obtained.exists_granted (h : t.Obtained given) (ht : t.source = .derived q) :
    ∃ u, .table u ∈ given ∧ u.source = .derived q := by
  induction h with
  | ofName name => exact nomatch ht
  | granted h => exact ⟨_, h, ht⟩
  | aliased label _ ih => exact ih ht

/-- **In a program an identity belongs to one query.** -/
theorem Table.Obtained.consistent (h : (given.map Grant.id?).Nodup) (ha : a.Obtained given)
    (hb : b.Obtained given) : a.Consistent b := by
  intro q q' hq hq' hid
  obtain ⟨u, hu, huq⟩ := ha.exists_granted hq
  obtain ⟨v, hv, hvq⟩ := hb.exists_granted hq'
  have hids : (Grant.table u).id? = (Grant.table v).id? := by
    rw [Grant.id?, Grant.id?, Table.queryId?_of_source huq, Table.queryId?_of_source hvq, hid]
  obtain rfl := Grant.table.inj (List.inj_on_of_nodup_map h hu hv hids)
  rw [huq] at hvq
  rw [Source.derived.inj hvq]

end SqlBuilder
