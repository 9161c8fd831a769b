import SqlBuilder.Value

/-!
# The leaves of a literal

An array literal is a tree, and its leaves are the literals in it that are no arrays
(`Value.leaves`). An empty array has none. What is said of literals of any nesting is said leaf by
leaf, and proved by induction on arrays (`arrayInduction`). `Value.mapLeaves` changes leaves where
they stand. `Value.floats` are the floats among them, and `Value.mapFloats` changes only those.
-/

namespace SqlBuilder.Value

variable {f : Value → Value} {v : Value}

mutual

/-- The literals in a literal that are no arrays, from left to right. -/
def leaves : Value → List Value
  | array items => leavesOf items
  | leaf => [leaf]

def leavesOf : List Value → List Value
  | [] => []
  | item :: items => item.leaves ++ leavesOf items

end

mutual

/-- The literal with `f` applied to every leaf. -/
def mapLeaves (f : Value → Value) : Value → Value
  | array items => array (mapLeavesOf f items)
  | leaf => f leaf

def mapLeavesOf (f : Value → Value) : List Value → List Value
  | [] => []
  | item :: items => item.mapLeaves f :: mapLeavesOf f items

end

def float? : Value → Option Double
  | float x => some x
  | _ => none

/-- The floats in a literal, from left to right. -/
def floats (v : Value) : List Double := v.leaves.filterMap float?

/-- The literal with `f` applied to every float. -/
def mapFloats (f : Double → Double) (v : Value) : Value :=
  v.mapLeaves fun
    | float x => float (f x)
    | leaf => leaf

/-- What holds of all leaves, and of an array when it holds of its items, holds of all literals. -/
theorem arrayInduction {P : Value → Prop} (null : P null) (bool : ∀ b, P (bool b))
    (int : ∀ n, P (int n)) (float : ∀ x, P (float x)) (text : ∀ s, P (text s))
    (array : ∀ items, (∀ item ∈ items, P item) → P (array items)) : ∀ v, P v :=
  @Value.rec P (fun items => ∀ item ∈ items, P item) null bool int float text array
    (fun _ h => absurd h List.not_mem_nil)
    fun _ _ hitem hitems => List.forall_mem_cons.mpr ⟨hitem, hitems⟩

theorem leavesOf_eq_flatMap (items : List Value) : leavesOf items = items.flatMap leaves := by
  induction items with
  | nil => rfl
  | cons item items ih => rw [leavesOf, ih, List.flatMap_cons]

theorem mapLeavesOf_eq_map (f : Value → Value) (items : List Value) :
    mapLeavesOf f items = items.map (mapLeaves f) := by
  induction items with
  | nil => rfl
  | cons item items ih => rw [mapLeavesOf, ih, List.map_cons]

@[simp]
theorem leaves_array (items : List Value) : (array items).leaves = items.flatMap leaves := by
  rw [leaves, leavesOf_eq_flatMap]

@[simp]
theorem mapLeaves_array (f : Value → Value) (items : List Value) :
    (array items).mapLeaves f = array (items.map (mapLeaves f)) := by
  rw [mapLeaves, mapLeavesOf_eq_map]

theorem map_eq_self_iff {items : List Value} :
    items.map f = items ↔ ∀ item ∈ items, f item = item := by
  simpa using List.map_inj_left (l := items) (f := f) (g := id)

/-- **A literal stays as it is exactly when its leaves do.** -/
theorem mapLeaves_eq_self_iff : v.mapLeaves f = v ↔ ∀ leaf ∈ v.leaves, f leaf = leaf := by
  induction v using arrayInduction with
  | array items ih =>
    rw [mapLeaves_array, leaves_array, array.injEq, map_eq_self_iff, List.forall_mem_flatMap]
    exact forall_congr' fun item => forall_congr' (ih item)
  | null | bool | int | float | text => simp [mapLeaves, leaves]

theorem mem_floats {x : Double} : x ∈ v.floats ↔ float x ∈ v.leaves := by
  rw [floats, List.mem_filterMap]
  constructor
  · rintro ⟨leaf, hleaf, hx⟩
    cases leaf with
    | float y => rwa [Option.some.inj hx] at hleaf
    | _ => contradiction
  · exact fun h => ⟨float x, h, rfl⟩

theorem mem_floats_array {items : List Value} {x : Double} :
    x ∈ (array items).floats ↔ ∃ item ∈ items, x ∈ item.floats := by
  simp only [mem_floats, leaves_array, List.mem_flatMap]

end SqlBuilder.Value
