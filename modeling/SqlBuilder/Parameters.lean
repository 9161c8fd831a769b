import SqlBuilder.Value

/-!
# Parameters

`Parameters` give 1-based ordinals to literals in first-seen order. Most literals are keyed by
their value, so an equal literal bound again keeps its ordinal. An array literal is keyed by the
identity of the node that carries it. The two kinds of key never meet. Keys are distinct by type,
and every operation only appends.

Model of `ParamTable` and `ParamKey`: `bind` is `add` and `add_node`, `merge` is `merge_from`.
-/

namespace SqlBuilder

/-- What a bound literal is looked up by. -/
inductive Binding.Key where
  /-- The value itself. -/
  | literal (value : Value)
  /-- The identity of the node that owns the value. -/
  | node (id : Nat)
deriving DecidableEq

/-- A literal to bind, on its own or as the value of a node. -/
inductive Binding where
  | literal (value : Value)
  | node (id : Nat) (value : Value)
deriving DecidableEq

namespace Binding

def key : Binding → Key
  | literal v => .literal v
  | node id _ => .node id

def value : Binding → Value
  | literal v => v
  | node _ v => v

/-- The same sort of key, the same node, and numerically equal values. -/
def sameNumbers : Binding → Binding → Bool
  | literal v, literal w => v.sameNumbers w
  | node i v, node j w => i == j && v.sameNumbers w
  | _, _ => false

end Binding

/-- Bound literals in first-seen order, no two with the same key. -/
structure Parameters where
  entries : List Binding
  nodup_keys : (entries.map Binding.key).Nodup

namespace Parameters

/-- No parameters. -/
def empty : Parameters := ⟨[], .nil⟩

instance : Inhabited Parameters := ⟨empty⟩

@[ext]
theorem ext {t u : Parameters} (h : t.entries = u.entries) : t = u := by
  cases t; cases u; cases h; rfl

/-! ## Look-up -/

/-- The ordinal of a key, if it is present. -/
def ordinal? (t : Parameters) (k : Binding.Key) : Option Nat :=
  (t.entries.findIdx? (·.key = k)).map (· + 1)

/-- The ordinal of a literal bound by value, if it is present. -/
def valueOrdinal? (t : Parameters) (v : Value) : Option Nat := t.ordinal? (.literal v)

theorem notMem_of_ordinal?_eq_none {t : Parameters} {k : Binding.Key} (h : t.ordinal? k = none) :
    k ∉ t.entries.map Binding.key := by
  simp only [ordinal?, Option.map_eq_none_iff, List.findIdx?_eq_none_iff] at h
  simp only [List.mem_map, not_exists, not_and]
  intro b hb e
  simpa [e] using h b hb

/-! ## Binding -/

/-- Adds a literal under its key, unless the key is present, and returns the key's ordinal. -/
def bind (t : Parameters) (b : Binding) : Nat × Parameters :=
  match h : t.ordinal? b.key with
  | some n => (n, t)
  | none =>
    (t.entries.length + 1,
      ⟨t.entries ++ [b], by
        have := notMem_of_ordinal?_eq_none h
        rw [List.map_append, List.nodup_append]
        refine ⟨t.nodup_keys, by simp, ?_⟩
        intro k hk k' hk' e
        simp only [List.map_cons, List.map_nil, List.mem_singleton] at hk'
        exact this (hk' ▸ e ▸ hk)⟩)

/-- Binds a literal by its value. -/
def bindValue (t : Parameters) (v : Value) : Nat × Parameters := t.bind (.literal v)

/-- Binds the value of a node. A later value for the same node is not looked at. -/
def bindNodeValue (t : Parameters) (id : Nat) (v : Value) : Nat × Parameters := t.bind (.node id v)

/-- Binds every literal of a list, in order. -/
def bindAll (t : Parameters) (bs : List Binding) : Parameters :=
  bs.foldl (fun t b => (t.bind b).2) t

/-- Appends the entries of `u` whose keys are not present. -/
def merge (t u : Parameters) : Parameters := t.bindAll u.entries

/-! ## Contents -/

/-- The number of parameters. -/
def size (t : Parameters) : Nat := t.entries.length

def isEmpty (t : Parameters) : Bool := t.entries.isEmpty

/-- The values by ordinal. -/
def values (t : Parameters) : List Value := t.entries.map Binding.value

/-- Each ordinal with its value. -/
def toList (t : Parameters) : List (Nat × Value) :=
  t.values.zipIdx.map fun (v, i) => (i + 1, v)

/-- Entry by entry numeric equality: parameters with a NaN among them differ from themselves. -/
def sameNumbers (t u : Parameters) : Bool :=
  t.size == u.size && (t.entries.zip u.entries).all fun (a, b) => a.sameNumbers b

end Parameters
end SqlBuilder
