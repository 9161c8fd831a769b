import SqlBuilder.Parameters
import SqlBuilder.Proofs.Value.Leaves

/-!
# Literal identity

Literals are compared in two ways, and both go by kind and, in arrays, item by item. `Alike r` is
the relation that such a comparison decides: the same structure with equal leaves, floats apart,
which are related by `r`. Literal identity takes for `r` that the bits agree (`same_iff_alike`), and
numeric equality that the numbers do (`sameNumbers_iff_alike`).

`level` is one level of a comparison. A comparison that is the same at every level is what its
relation on floats makes it, by induction on arrays in one direction and on `Alike` in the other.

* `sameNumbers_mapFloats`, `same_mapFloats`: which changes of floats, at any depth, are noticed.
* `same_eq_sameNumbers_iff`: where the two comparisons agree.
* `same_laws`: literal identity is an equivalence, is exact, and is what parameters are found by.
-/

namespace SqlBuilder

namespace Double

/-- The zero with the other sign bit. -/
def otherZero (x : Double) : Double := if x.isNegative then ⟨0⟩ else ⟨0x8000000000000000⟩

variable {x y : Double}

theorem otherZero_ne (x : Double) : x.otherZero ≠ x := by
  have hsign : x.otherZero.isNegative = !x.isNegative := by
    unfold otherZero
    cases x.isNegative <;> decide
  intro h
  rw [h] at hsign
  cases hx : x.isNegative <;> simp [hx] at hsign

theorem isZero_otherZero (x : Double) : x.otherZero.isZero = true := by
  unfold otherZero
  cases x.isNegative <;> decide

theorem isNaN_of_isZero (h : x.isZero = true) : x.isNaN = false := by
  rw [isZero, beq_iff_eq] at h
  rw [isNaN, h]
  decide

theorem sameNumber_self_iff : x.sameNumber x = true ↔ x.isNaN = false := by
  simp [sameNumber]

theorem sameNumber_of_isZero (hx : x.isZero = true) (hy : y.isZero = true) :
    x.sameNumber y = true := by
  simp [sameNumber, hx, hy, isNaN_of_isZero hx, isNaN_of_isZero hy]

/-- A number other than zero has one pattern. -/
theorem sameNumber_iff (hnan : x.isNaN = false) (hzero : x.isZero = false) :
    x.sameNumber y = true ↔ x.bits = y.bits := by
  constructor
  · intro h
    simp only [sameNumber, hzero, Bool.false_and, Bool.or_false, Bool.and_eq_true, beq_iff_eq] at h
    exact h.2
  · intro h
    rw [← Double.ext h]
    exact sameNumber_self_iff.mpr hnan

end Double

namespace Value

/-- The same structure with equal leaves, except that floats are only related by `r`. -/
inductive Alike (r : Double → Double → Prop) : Value → Value → Prop
  | null : Alike r .null .null
  | bool (b : Bool) : Alike r (.bool b) (.bool b)
  | int (n : Int64) : Alike r (.int n) (.int n)
  | float {x y : Double} (h : r x y) : Alike r (.float x) (.float y)
  | text (s : String) : Alike r (.text s) (.text s)
  /-- As many items, alike position by position. -/
  | array {as bs : List Value} (length : as.length = bs.length)
      (items : ∀ (i : Nat) (a b : Value), as[i]? = some a → bs[i]? = some b → Alike r a b) :
      Alike r (.array as) (.array bs)

/-- One level of a comparison, with `r` for floats and `f` for items. -/
def level (r : Double → Double → Bool) (f : Value → Value → Bool) : Value → Value → Bool
  | .null, .null => true
  | .bool a, .bool b => a == b
  | .int a, .int b => a == b
  | .float x, .float y => r x y
  | .text a, .text b => a == b
  | .array as, .array bs => as.length == bs.length && (as.zip bs).all fun p => f p.1 p.2
  | _, _ => false

variable {a b : Value} {as bs : List Value}

/-! ## Both comparisons, level by level -/

/-- A comparison of lists item by item sees all items, not only those of the shorter list. -/
theorem items_eq_zip {f : Value → Value → Bool} {g : List Value → List Value → Bool}
    (hnil : g [] [] = true) (hleft : ∀ a as, g (a :: as) [] = false)
    (hright : ∀ b bs, g [] (b :: bs) = false)
    (hcons : ∀ a as b bs, g (a :: as) (b :: bs) = (f a b && g as bs)) (as bs : List Value) :
    g as bs = (as.length == bs.length && (as.zip bs).all fun p => f p.1 p.2) := by
  induction as generalizing bs with
  | nil =>
    cases bs with
    | nil => exact hnil
    | cons b bs => exact hright b bs
  | cons a as ih =>
    cases bs with
    | nil => exact hleft a as
    | cons b bs =>
      have hlength : ((a :: as).length == (b :: bs).length) = (as.length == bs.length) := by simp
      rw [hcons, ih, hlength, List.zip_cons_cons, List.all_cons, Bool.and_left_comm]

theorem same_eq_level (a b : Value) : a.same b = level (fun x y => x.bits == y.bits) same a b := by
  cases a <;> cases b <;> try rfl
  exact items_eq_zip rfl (fun _ _ => rfl) (fun _ _ => rfl) (fun _ _ _ _ => rfl) _ _

theorem sameNumbers_eq_level (a b : Value) :
    a.sameNumbers b = level Double.sameNumber sameNumbers a b := by
  cases a <;> cases b <;> try rfl
  exact items_eq_zip rfl (fun _ _ => rfl) (fun _ _ => rfl) (fun _ _ _ _ => rfl) _ _

theorem forall_mem_zip_iff {P : Value → Value → Prop} : (∀ p ∈ as.zip bs, P p.1 p.2) ↔
    ∀ (i : Nat) (a b : Value), as[i]? = some a → bs[i]? = some b → P a b := by
  constructor
  · intro h i a b ha hb
    exact h (a, b) (List.mem_of_getElem? (List.getElem?_zip_eq_some.mpr ⟨ha, hb⟩))
  · intro h p hp
    obtain ⟨i, hi⟩ := List.mem_iff_getElem?.mp hp
    obtain ⟨ha, hb⟩ := List.getElem?_zip_eq_some.mp hi
    exact h i p.1 p.2 ha hb

section Level

variable {r : Double → Double → Bool} {f : Value → Value → Bool}

theorem level_of_alike (h : ∀ a b, f a b = level r f a b)
    (hab : Alike (fun x y => r x y = true) a b) : f a b = true := by
  induction hab with
  | null => exact h _ _
  | bool b => exact (h _ _).trans (beq_self_eq_true b)
  | int n => exact (h _ _).trans (beq_self_eq_true n)
  | float hxy => exact (h _ _).trans hxy
  | text s => exact (h _ _).trans (beq_self_eq_true s)
  | array length _ ih =>
    rw [h, level, Bool.and_eq_true, beq_iff_eq, List.all_eq_true]
    exact ⟨length, forall_mem_zip_iff.mpr ih⟩

theorem alike_of_level (h : ∀ a b, f a b = level r f a b) (hf : f a b = true) :
    Alike (fun x y => r x y = true) a b := by
  induction a using arrayInduction generalizing b with
  | array as ih =>
    rw [h] at hf
    cases b with
    | array bs =>
      rw [level, Bool.and_eq_true, beq_iff_eq, List.all_eq_true] at hf
      refine .array hf.1 (forall_mem_zip_iff.mp fun p hp => ?_)
      exact ih p.1 (List.of_mem_zip hp).1 (hf.2 p hp)
    | _ => contradiction
  | null =>
    rw [h] at hf
    cases b with
    | null => exact .null
    | _ => contradiction
  | bool x =>
    rw [h] at hf
    cases b with
    | bool y => exact beq_iff_eq.mp hf ▸ .bool x
    | _ => contradiction
  | int m =>
    rw [h] at hf
    cases b with
    | int n => exact beq_iff_eq.mp hf ▸ .int m
    | _ => contradiction
  | float x =>
    rw [h] at hf
    cases b with
    | float y => exact .float hf
    | _ => contradiction
  | text s =>
    rw [h] at hf
    cases b with
    | text t => exact beq_iff_eq.mp hf ▸ .text s
    | _ => contradiction

/-- **A comparison that is the same at every level decides `Alike`.** -/
theorem iff_alike_of_level (h : ∀ a b, f a b = level r f a b) (a b : Value) :
    f a b = true ↔ Alike (fun x y => r x y = true) a b :=
  ⟨alike_of_level h, level_of_alike h⟩

end Level

theorem same_iff_alike (a b : Value) :
    a.same b = true ↔ Alike (fun x y => x.bits = y.bits) a b := by
  simpa only [beq_iff_eq] using iff_alike_of_level same_eq_level a b

theorem sameNumbers_iff_alike (a b : Value) :
    a.sameNumbers b = true ↔ Alike (fun x y => x.sameNumber y = true) a b :=
  iff_alike_of_level sameNumbers_eq_level a b

/-! ## Where the comparisons differ -/

section Floats

variable {r r' : Double → Double → Prop} {f : Double → Double}

/-- Only the floats that are there matter. -/
theorem Alike.mono (h : Alike r a b) (hr : ∀ x ∈ a.floats, ∀ y, r x y → r' x y) :
    Alike r' a b := by
  induction h with
  | null => exact .null
  | bool b => exact .bool b
  | int n => exact .int n
  | float hxy => exact .float (hr _ (mem_floats.mpr (List.mem_singleton_self _)) _ hxy)
  | text s => exact .text s
  | array length _ ih =>
    refine .array length fun i a b ha hb => ih i a b ha hb fun x hx => hr x ?_
    exact mem_floats_array.mpr ⟨a, List.mem_of_getElem? ha, hx⟩

theorem mapFloats_array (items : List Value) :
    (array items).mapFloats f = array (items.map (mapFloats f)) := mapLeaves_array _ _

/-- **A change of floats is noticed exactly where `r` notices it**, at any depth. -/
theorem alike_mapFloats_iff : Alike r a (a.mapFloats f) ↔ ∀ x ∈ a.floats, r x (f x) := by
  induction a using arrayInduction with
  | array items ih =>
    rw [mapFloats_array]
    constructor
    · intro h x hx
      obtain ⟨item, hitem, hx⟩ := mem_floats_array.mp hx
      obtain ⟨i, hi⟩ := List.mem_iff_getElem?.mp hitem
      cases h with
      | array _ hitems =>
        refine (ih item hitem).mp (hitems i item (item.mapFloats f) hi ?_) x hx
        rw [List.getElem?_map, hi, Option.map_some]
    · intro h
      refine .array (List.length_map _).symm fun i a b ha hb => ?_
      rw [List.getElem?_map, ha, Option.map_some, Option.some.injEq] at hb
      have hitem := List.mem_of_getElem? ha
      rw [← hb]
      exact (ih a hitem).mpr fun x hx => h x (mem_floats_array.mpr ⟨a, hitem, hx⟩)
  | float x =>
    have hfloats : (float x).floats = [x] := rfl
    rw [hfloats, List.forall_mem_singleton]
    exact ⟨fun | .float h => h, fun h => .float h⟩
  | null => exact ⟨fun _ => nofun, fun _ => .null⟩
  | bool b => exact ⟨fun _ => nofun, fun _ => .bool b⟩
  | int n => exact ⟨fun _ => nofun, fun _ => .int n⟩
  | text s => exact ⟨fun _ => nofun, fun _ => .text s⟩

theorem same_mapFloats (a : Value) :
    a.same (a.mapFloats f) = true ↔ ∀ x ∈ a.floats, f x = x := by
  rw [same_iff_alike, alike_mapFloats_iff]
  exact forall₂_congr fun x _ => by rw [← Double.ext_iff, eq_comm]

theorem sameNumbers_mapFloats (a : Value) :
    a.sameNumbers (a.mapFloats f) = true ↔ ∀ x ∈ a.floats, x.sameNumber (f x) = true := by
  rw [sameNumbers_iff_alike, alike_mapFloats_iff]

end Floats

/-- Numeric equality is reflexive exactly where no float is a NaN. -/
theorem sameNumbers_self_iff (a : Value) :
    a.sameNumbers a = true ↔ ∀ x ∈ a.floats, x.isNaN = false := by
  have hself : a.mapFloats id = a := by
    refine mapLeaves_eq_self_iff.mpr fun leaf _ => ?_
    cases leaf <;> rfl
  have h := sameNumbers_mapFloats (f := id) a
  rw [hself] at h
  exact h.trans (forall₂_congr fun x _ => Double.sameNumber_self_iff)

/-- **The two comparisons agree on a literal exactly when its floats are neither NaN nor zero.** A
NaN is numerically different from itself, and a zero numerically equal to the other one. -/
theorem same_eq_sameNumbers_iff (a : Value) : (∀ b, a.same b = a.sameNumbers b) ↔
    ∀ x ∈ a.floats, x.isNaN = false ∧ x.isZero = false := by
  constructor
  · intro h
    have hnan : ∀ x ∈ a.floats, x.isNaN = false := by
      rw [← sameNumbers_self_iff, ← h, same_iff]
    let swap : Double → Double := fun x => if x.isZero then x.otherZero else x
    have hswap : a.sameNumbers (a.mapFloats swap) = true := by
      refine (sameNumbers_mapFloats a).mpr fun x hx => ?_
      by_cases hzero : x.isZero = true
      · simpa only [swap, if_pos hzero] using
          Double.sameNumber_of_isZero hzero x.isZero_otherZero
      · simpa only [swap, if_neg hzero] using Double.sameNumber_self_iff.mpr (hnan x hx)
    rw [← h, same_mapFloats] at hswap
    refine fun x hx => ⟨hnan x hx, Bool.eq_false_iff.mpr fun hzero => ?_⟩
    have hfix := hswap x hx
    simp only [swap, if_pos hzero] at hfix
    exact x.otherZero_ne hfix
  · intro h b
    have hiff : ∀ x ∈ a.floats, ∀ y, x.sameNumber y = true ↔ x.bits = y.bits :=
      fun x hx y => Double.sameNumber_iff (h x hx).1 (h x hx).2
    rw [Bool.eq_iff_iff, same_iff_alike, sameNumbers_iff_alike]
    exact ⟨fun hab => hab.mono fun x hx y => (hiff x hx y).mpr,
      fun hab => hab.mono fun x hx y => (hiff x hx y).mp⟩

/-- **Literal identity.** It is an equivalence, and holds of two literals exactly when they have the
same structure with the same leaves, floats by their bits. So it holds of a literal and itself
whatever NaNs are in it, notices every change of a float's bits at any depth, and never takes an
integer for a float. Numeric equality differs from it only in how floats compare, and on a literal
the two agree exactly when no float in it is a NaN or a zero. Parameters are found by literal
identity. -/
theorem same_laws :
    (Equivalence fun a b : Value => a.same b = true) ∧
    (∀ a b : Value, a.same b = true ↔ Alike (fun x y => x.bits = y.bits) a b) ∧
    (∀ (a : Value) (f : Double → Double),
      a.same (a.mapFloats f) = true ↔ ∀ x ∈ a.floats, f x = x) ∧
    (∀ n x, (int n).same (float x) = false ∧ (float x).same (int n) = false) ∧
    (∀ a b : Value, a.sameNumbers b = true ↔ Alike (fun x y => x.sameNumber y = true) a b) ∧
    (∀ a : Value, (∀ b, a.same b = a.sameNumbers b) ↔
      ∀ x ∈ a.floats, x.isNaN = false ∧ x.isZero = false) ∧
    ∀ (t : Parameters) (v : Value), t.valueOrdinal? v = (t.entries.findIdx? fun
      | .literal w => w.same v
      | .node _ _ => false).map (· + 1) := by
  refine ⟨⟨fun a => (same_iff a a).mpr rfl, fun h => ?_, fun h h' => ?_⟩, same_iff_alike,
    fun a _ => same_mapFloats a, fun _ _ => ⟨rfl, rfl⟩, sameNumbers_iff_alike,
    same_eq_sameNumbers_iff, fun t v => ?_⟩
  · rw [same_iff] at h ⊢
    exact h.symm
  · rw [same_iff] at h h' ⊢
    exact h.trans h'
  · have hkey : (fun b : Binding => decide (b.key = .literal v)) = fun
        | .literal w => w.same v
        | .node _ _ => false := by
      funext b
      cases b with
      | literal w =>
        rw [Bool.eq_iff_iff, decide_eq_true_iff, same_iff, Binding.key, Binding.Key.literal.injEq]
      | node id w => simp [Binding.key]
    rw [Parameters.valueOrdinal?, Parameters.ordinal?, hkey]

/-- A NaN in an array in an array is itself, though no number, and no other NaN. The two zeros are
different literals. With one and a half in place of the NaN, the comparisons agree. -/
theorem same_laws_nested_nan :
    let nan : Double := ⟨0x7ff8000000000000⟩
    let a := array [.array [.float nan], .int 1]
    a.same a = true ∧ a.sameNumbers a = false ∧
      (∀ x ∈ a.floats, x.isNaN = true) ∧ a.same (a.mapFloats fun _ => ⟨0x7ff8000000000001⟩) = false ∧
      (float ⟨0⟩).same (.float ⟨0x8000000000000000⟩) = false ∧
      ∀ b, (a.mapFloats fun _ => ⟨0x3ff8000000000000⟩).same b =
        (a.mapFloats fun _ => ⟨0x3ff8000000000000⟩).sameNumbers b := by
  intro nan a
  obtain ⟨hequivalence, hexact, hchange, -, -, hagree, -⟩ := same_laws
  refine ⟨hequivalence.refl a, by decide, by decide, Bool.eq_false_iff.mpr fun h => ?_,
    Bool.eq_false_iff.mpr fun h => ?_, (hagree _).mpr (by decide)⟩
  · exact absurd ((hchange a _).mp h nan (by decide)) (by decide)
  · cases (hexact _ _).mp h with
    | float hbits => exact absurd hbits (by decide)

end Value
end SqlBuilder
