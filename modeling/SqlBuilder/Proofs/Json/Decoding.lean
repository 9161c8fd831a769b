import Mathlib.Data.List.Forall2
import SqlBuilder.Proofs.Json.Documents
import SqlBuilder.Proofs.Json.Literals

/-!
# Which trees are literals

A tree does not say which kind of literal it is. It is tried as one kind after the other
(`Value.Kind.order`), and it is an array if every item is a literal in the same way.

* `eq_ofJson?_iff`: `Value.ofJson?` is the one function that does this at every node.
* `ofJson?_eq_some_iff`: what it gives is said without an order by `Stands`. Each kind of tree
  stands for one kind of literal, but an integer for a float when it does not fit 64 bits with a
  sign.
* `exists_ofJson?_iff`: an object stands for nothing, and nothing that has one in it does.
* `toJson_of_ofJson?`: written again, a literal is the tree that it was read from, with a float for
  every integer that did not fit. This is about the trees of documents (`Json.isDocument`): a float
  that is not finite would be written as null, and an integer of any size may become one.
* `ofJsonText_eq_ok_iff`: a text is read as such a tree first, and the tree is that of a document.
-/

namespace SqlBuilder

/-- The double nearest to an integer. -/
def Double.ofInt (n : Int) : Double := .ofMagnitude (n < 0) (Double.ofNat n.natAbs)

namespace Json

variable {j k l : Json} {items : List Json} {n : Int}

/-- The integer fits 64 bits with a sign. -/
def FitsInt64 (n : Int) : Prop := -(Nat.pow 2 63 : Int) ≤ n ∧ n < Nat.pow 2 63

instance : DecidablePred FitsInt64 := fun _ => inferInstanceAs (Decidable (_ ∧ _))

/-- A tree is another one or stands somewhere in it, in whatever arrays and objects. -/
inductive Within (k : Json) : Json → Prop
  | here : Within k k
  | item {items : List Json} {j : Json} (hj : j ∈ items) (h : Within k j) : Within k (.array items)
  | field {fields : List (String × Json)} {name : String} {j : Json} (hj : (name, j) ∈ fields)
      (h : Within k j) : Within k (.object fields)

mutual

/-- The tree with a float for every integer that does not fit 64 bits with a sign. -/
def widened : Json → Json
  | integer n => if FitsInt64 n then integer n else real (.ofInt n)
  | array items => array (widenedItems items)
  | object fields => object (widenedFields fields)
  | j => j

def widenedItems : List Json → List Json
  | [] => []
  | item :: items => item.widened :: widenedItems items

def widenedFields : List (String × Json) → List (String × Json)
  | [] => []
  | (name, value) :: fields => (name, value.widened) :: widenedFields fields

end

/-- What holds of everything but arrays, and of an array when it holds of its items, holds of all
trees. -/
theorem arrayInduction {P : Json → Prop} (null : P null) (bool : ∀ b, P (bool b))
    (integer : ∀ n, P (integer n)) (real : ∀ x, P (real x)) (string : ∀ s, P (string s))
    (array : ∀ items, (∀ item ∈ items, P item) → P (array items))
    (object : ∀ fields, P (object fields)) : ∀ j, P j :=
  @Json.rec P (fun items => ∀ item ∈ items, P item) (fun _ => True) (fun _ => True)
    null bool integer real string array (fun fields _ => object fields)
    (fun _ h => absurd h List.not_mem_nil)
    (fun _ _ hitem hitems => List.forall_mem_cons.mpr ⟨hitem, hitems⟩) trivial
    (fun _ _ _ _ => trivial) fun _ _ _ => trivial

theorem Within.trans (hlk : Within l k) (hkj : Within k j) : Within l j := by
  induction hkj with
  | here => exact hlk
  | item hj _ ih => exact .item hj ih
  | field hj _ ih => exact .field hj ih

theorem within_array_iff {fields : List (String × Json)} :
    Within (.object fields) (array items) ↔ ∃ item ∈ items, Within (.object fields) item := by
  constructor
  · intro h
    cases h with
    | item hitem h => exact ⟨_, hitem, h⟩
  · exact fun ⟨_, hitem, h⟩ => .item hitem h

theorem widened_array (items : List Json) : (array items).widened = array (items.map widened) := by
  rw [widened]
  congr 1
  induction items with
  | nil => rfl
  | cons item items ih => rw [widenedItems, ih, List.map_cons]

end Json

/-! ## Integers as floats -/

/-- No integer of a document is too big for a float. -/
theorem Double.isFinite_ofInt {n : Int} (h : (Json.integer n).isDocument = true) :
    (Double.ofInt n).isFinite = true := by
  obtain ⟨hlow, hhigh⟩ := Json.isDocument_integer_iff.mp h
  refine isFinite_ofMagnitude ((ofNat_le (k := 64) ?_).trans_lt (limit_lt_infinite (by decide)))
  have hpow : Nat.pow 2 64 = Nat.pow 2 63 + Nat.pow 2 63 := rfl
  omega

namespace Value

/-! ## The kinds, one after the other -/

/-- The kinds of literals. -/
inductive Kind where
  | null
  | bool
  | int
  | float
  | text
  | array
deriving DecidableEq

/-- The kinds in the order in which a tree is tried as them. -/
def Kind.order : List Kind := [null, bool, int, float, text, array]

/-- The tree as a literal of one kind, if it can be one. `item` reads the items of an array. An
integer can be a float. -/
def Kind.read? (item : Json → Option Value) : Kind → Json → Option Value
  | null, .null => some .null
  | bool, .bool b => some (.bool b)
  | int, .integer n => if Json.FitsInt64 n then some (.int (.ofInt n)) else none
  | float, .integer n => some (.float (.ofInt n))
  | float, .real x => some (.float x)
  | text, .string s => some (.text s)
  | array, .array items => (items.mapM item).map .array
  | _, _ => none

/-- The tree as the first kind of literal that it can be. -/
def first? (item : Json → Option Value) (j : Json) : Option Value :=
  Kind.order.findSome? fun kind => kind.read? item j

variable {items : List Json} {vs : List Value} {j k : Json} {v : Value}
  {f g : Json → Option Value}

theorem itemsOfJson?_eq_mapM (items : List Json) : itemsOfJson? items = items.mapM ofJson? := by
  induction items with
  | nil => rfl
  | cons item items ih =>
    rw [itemsOfJson?, List.mapM_cons, ih]
    cases ofJson? item with
    | none => rfl
    | some v => cases items.mapM ofJson? <;> rfl

theorem mapM_congr_of_mem (h : ∀ item ∈ items, f item = g item) : items.mapM f = items.mapM g := by
  induction items with
  | nil => rfl
  | cons item items ih =>
    obtain ⟨hitem, hitems⟩ := List.forall_mem_cons.mp h
    rw [List.mapM_cons, List.mapM_cons, hitem, ih hitems]

theorem ofInteger_of_fits {n : Int} (h : Json.FitsInt64 n) : ofInteger n = int (.ofInt n) :=
  if_pos h

theorem ofInteger_of_not_fits {n : Int} (h : ¬ Json.FitsInt64 n) :
    ofInteger n = float (.ofInt n) := if_neg h

theorem first?_integer (n : Int) : first? f (.integer n) = some (ofInteger n) := by
  by_cases h : Json.FitsInt64 n
  · simp [first?, Kind.order, Kind.read?, h, ofInteger_of_fits h]
  · simp [first?, Kind.order, Kind.read?, h, ofInteger_of_not_fits h]

theorem first?_array : first? f (.array items) = (items.mapM f).map .array := by
  cases h : items.mapM f <;> simp [first?, Kind.order, Kind.read?, h]

theorem ofJson?_eq_first? (j : Json) : ofJson? j = first? ofJson? j := by
  cases j with
  | integer n => exact (first?_integer n).symm
  | array items => rw [first?_array, ofJson?, itemsOfJson?_eq_mapM]
  | null | bool | real | string | object => rfl

/-- **To be a literal is decided by trying the kinds in order, at every node.** -/
theorem eq_ofJson?_iff : f = ofJson? ↔ ∀ j, f j = first? f j := by
  constructor
  · rintro rfl j
    exact ofJson?_eq_first? j
  · intro h
    funext j
    induction j using Json.arrayInduction with
    | array items ih => rw [h, first?_array, mapM_congr_of_mem ih, ofJson?_eq_first?, first?_array]
    | integer n => rw [h, first?_integer, ofJson?]
    | null | bool | real | string | object =>
      rw [h]
      rfl

/-! ## What a tree stands for -/

/-- The tree stands for the literal, whatever the order of the kinds. -/
inductive Stands : Json → Value → Prop
  | null : Stands .null .null
  | bool (b : Bool) : Stands (.bool b) (.bool b)
  | int (n : Int64) : Stands (.integer n.toInt) (.int n)
  | wide {n : Int} (h : ¬ Json.FitsInt64 n) : Stands (.integer n) (.float (.ofInt n))
  | real (x : Double) : Stands (.real x) (.float x)
  | text (s : String) : Stands (.string s) (.text s)
  /-- As many items, each for the one at its position. -/
  | array {items : List Json} {vs : List Value} (h : List.Forall₂ Stands items vs) :
      Stands (.array items) (.array vs)

theorem stands_integer_iff {n : Int} : Stands (.integer n) v ↔ ofInteger n = v := by
  constructor
  · intro h
    cases h with
    | int n => exact ofInteger_toInt n
    | wide h => exact ofInteger_of_not_fits h
  · rintro rfl
    by_cases h : Json.FitsInt64 n
    · rw [ofInteger_of_fits h]
      have hint := Stands.int (.ofInt n)
      rwa [Int64.toInt_ofInt_of_le h.1 h.2] at hint
    · rw [ofInteger_of_not_fits h]
      exact .wide h

theorem stands_array_iff :
    Stands (.array items) v ↔ ∃ vs, List.Forall₂ Stands items vs ∧ .array vs = v := by
  constructor
  · intro h
    cases h with
    | array h => exact ⟨_, h, rfl⟩
  · rintro ⟨vs, h, rfl⟩
    exact .array h

theorem itemsOfJson?_eq_some_iff :
    itemsOfJson? items = some vs ↔ List.Forall₂ (fun j v => ofJson? j = some v) items vs := by
  induction items generalizing vs with
  | nil => cases vs <;> simp [itemsOfJson?]
  | cons item items ih =>
    cases vs with
    | nil =>
      rw [itemsOfJson?]
      constructor
      · intro h
        split at h <;> simp at h
      · intro h
        cases h
    | cons v vs =>
      rw [List.forall₂_cons, ← ih, itemsOfJson?]
      cases ofJson? item <;> cases itemsOfJson? items <;> simp

theorem forall₂_of_mem {r s : Json → Value → Prop} (h : List.Forall₂ r items vs)
    (himp : ∀ item ∈ items, ∀ v, r item v → s item v) : List.Forall₂ s items vs := by
  induction h with
  | nil => exact .nil
  | cons hhead _ ih =>
    obtain ⟨hitem, hitems⟩ := List.forall_mem_cons.mp himp
    exact .cons (hitem _ hhead) (ih hitems)

/-- **A tree is read as what it stands for.** -/
theorem ofJson?_eq_some_iff (j : Json) : ∀ v, ofJson? j = some v ↔ Stands j v := by
  induction j using Json.arrayInduction with
  | array items ih =>
    intro v
    rw [ofJson?, Option.map_eq_some_iff, stands_array_iff]
    refine exists_congr fun vs => and_congr_left fun _ => ?_
    rw [itemsOfJson?_eq_some_iff]
    exact ⟨fun h => forall₂_of_mem h fun item hitem v => (ih item hitem v).mp,
      fun h => forall₂_of_mem h fun item hitem v => (ih item hitem v).mpr⟩
  | integer n =>
    intro v
    rw [ofJson?, Option.some.injEq, stands_integer_iff]
  | object fields =>
    intro v
    constructor
    · intro h
      contradiction
    · intro h
      cases h
  | null | bool | real | string =>
    intro v
    constructor
    · intro h
      rw [← Option.some.inj h]
      constructor
    · intro h
      cases h
      rfl

/-! ## Objects -/

theorem exists_itemsOfJson?_iff :
    (∃ vs, itemsOfJson? items = some vs) ↔ ∀ item ∈ items, ∃ v, ofJson? item = some v := by
  induction items with
  | nil => exact ⟨fun _ _ h => absurd h List.not_mem_nil, fun _ => ⟨[], rfl⟩⟩
  | cons item items ih =>
    rw [List.forall_mem_cons, ← ih, itemsOfJson?]
    cases ofJson? item <;> cases itemsOfJson? items <;> simp

theorem exists_ofJson?_array_iff : (∃ v, ofJson? (.array items) = some v) ↔
    ∀ item ∈ items, ∃ v, ofJson? item = some v := by
  rw [← exists_itemsOfJson?_iff, ofJson?]
  simp only [Option.map_eq_some_iff]
  constructor
  · rintro ⟨-, vs, h, -⟩
    exact ⟨vs, h⟩
  · rintro ⟨vs, h⟩
    exact ⟨_, vs, h, rfl⟩

/-- **Only an object is no literal**, wherever it stands. -/
theorem exists_ofJson?_iff (j : Json) :
    (∃ v, ofJson? j = some v) ↔ ∀ fields, ¬ Json.Within (.object fields) j := by
  induction j using Json.arrayInduction with
  | array items ih =>
    rw [exists_ofJson?_array_iff]
    constructor
    · intro h fields hobject
      obtain ⟨item, hitem, hobject⟩ := Json.within_array_iff.mp hobject
      exact (ih item hitem).mp (h item hitem) fields hobject
    · intro h item hitem
      exact (ih item hitem).mpr fun fields hobject => h fields (.item hitem hobject)
  | object fields => exact ⟨fun ⟨_, h⟩ => (nomatch h), fun h => absurd .here (h fields)⟩
  | null | bool | integer | real | string =>
    refine ⟨fun _ fields h => ?_, fun _ => ⟨_, rfl⟩⟩
    cases h

/-- One part that is no literal, however deep, and the whole is none. -/
theorem ofJson?_eq_none_of_within (hk : ofJson? k = none) (h : Json.Within k j) :
    ofJson? j = none := by
  rw [← Option.not_isSome_iff_eq_none, Option.isSome_iff_exists, exists_ofJson?_iff] at hk ⊢
  intro hj
  exact hk fun fields hobject => hj fields (hobject.trans h)

/-! ## Written again -/

theorem toJson_ofInteger {n : Int} (h : (Json.integer n).isDocument = true) :
    (ofInteger n).toJson = (Json.integer n).widened := by
  rw [Json.widened]
  by_cases hfits : Json.FitsInt64 n
  · rw [ofInteger_of_fits hfits, if_pos hfits, toJson, Int64.toInt_ofInt_of_le hfits.1 hfits.2]
  · rw [ofInteger_of_not_fits hfits, if_neg hfits, toJson, if_pos (Double.isFinite_ofInt h)]

/-- **A literal is written as the tree it was read from**, with a float for every integer that does
not fit. -/
theorem toJson_of_ofJson? (j : Json) : ∀ v, j.isDocument = true → ofJson? j = some v →
    v.toJson = j.widened := by
  induction j using Json.arrayInduction with
  | array items ih =>
    intro v hj h
    rw [ofJson?, Option.map_eq_some_iff] at h
    obtain ⟨vs, hvs, rfl⟩ := h
    rw [Json.isDocument_array, List.all_eq_true] at hj
    rw [toJson_array, Json.widened_array]
    congr 1
    rw [itemsOfJson?_eq_some_iff] at hvs
    have hitems : List.Forall₂ (fun item v => item.widened = v.toJson) items vs :=
      forall₂_of_mem hvs fun item hitem v hv => (ih item hitem v (hj item hitem) hv).symm
    have hmaps : List.Forall₂ Eq (items.map Json.widened) (vs.map toJson) :=
      List.forall₂_map_left_iff.mpr (List.forall₂_map_right_iff.mpr hitems)
    rw [List.forall₂_eq_eq_eq] at hmaps
    exact hmaps.symm
  | integer n =>
    intro v hj h
    rw [← Option.some.inj h, toJson_ofInteger hj]
  | real x =>
    intro v hj h
    rw [← Option.some.inj h]
    exact if_pos hj
  | object fields =>
    intro v _ h
    contradiction
  | null | bool | string =>
    intro v _ h
    rw [← Option.some.inj h]
    rfl

/-- **Reading a tree as a literal**: it is done by trying the kinds in order at every node; it
succeeds for the trees without an object, and gives what the tree stands for or nothing at all; and
the literal is written again as the tree, with a float for every integer that does not fit. -/
theorem ofJson?_laws (j : Json) :
    (∀ f, f = ofJson? ↔ ∀ k, f k = first? f k) ∧
    ((∃ v, ofJson? j = some v) ↔ ∀ fields, ¬ Json.Within (.object fields) j) ∧
    (∀ v, ofJson? j = some v ↔ Stands j v) ∧
    (∀ k, Json.Within k j → ofJson? k = none → ofJson? j = none) ∧
    (j.isDocument = true → ∀ v, ofJson? j = some v → v.toJson = j.widened) :=
  ⟨fun _ => eq_ofJson?_iff, exists_ofJson?_iff j, ofJson?_eq_some_iff j,
    fun _ hk hnone => ofJson?_eq_none_of_within hnone hk,
    fun hj v => toJson_of_ofJson? j v hj⟩

/-- The greatest integer that fits, the next one, and the greatest integer of a document. -/
theorem ofJson?_laws_limits :
    (Json.array [.integer 9223372036854775807, .array [.integer 9223372036854775808, .null],
      .integer 18446744073709551615]).isDocument = true ∧
    (array [int 9223372036854775807, array [float ⟨0x43e0000000000000⟩, null],
      float ⟨0x43f0000000000000⟩]).toJson =
      (Json.array [.integer 9223372036854775807, .array [.integer 9223372036854775808, .null],
        .integer 18446744073709551615]).widened :=
  ⟨by decide, (ofJson?_laws _).2.2.2.2 (by decide) _ (by rfl)⟩

/-! ## Texts -/

open Json.Reader

/-- A text is read to its end, but for space. -/
theorem run_eq_ok_iff {α : Type} {r : Json.Reader α} {a : α} {text : String} :
    Json.Reader.run r text = .ok a ↔
      ∃ rest, outcome r text.toList = .ok (a, rest) ∧ (rest.dropWhile isSpace).head? = none := by
  change (outcome (r >>= fun a => _) text.toList).map Prod.fst = .ok a ↔ _
  cases hr : outcome r text.toList with
  | error e =>
    rw [outcome_bind_error hr]
    exact ⟨nofun, nofun⟩
  | ok p =>
    obtain ⟨b, left⟩ := p
    have hpeek : outcome peek left =
        .ok ((left.dropWhile isSpace).head?, left.dropWhile isSpace) := rfl
    rw [outcome_bind_ok hr, outcome_bind_ok hpeek]
    cases hend : (left.dropWhile isSpace).head? with
    | none =>
      constructor
      · intro h
        obtain rfl : b = a := Except.ok.inj h
        exact ⟨left, rfl, hend⟩
      · rintro ⟨rest, h, -⟩
        obtain ⟨rfl, rfl⟩ := Prod.mk.inj (Except.ok.inj h)
        rfl
    | some c =>
      constructor
      · exact nofun
      · rintro ⟨rest, h, hrest⟩
        obtain ⟨rfl, rfl⟩ := Prod.mk.inj (Except.ok.inj h)
        rw [hend] at hrest
        contradiction

theorem outcome_reader_iff {depth : Nat} {cs rest : List Char} :
    outcome (reader depth) cs = .ok (v, rest) ↔
      ∃ j, outcome (tree depth) cs = .ok (j, rest) ∧ ofJson? j = some v := by
  rw [reader]
  cases htree : outcome (tree depth) cs with
  | error e =>
    rw [outcome_bind_error htree]
    exact ⟨nofun, nofun⟩
  | ok p =>
    obtain ⟨j, left⟩ := p
    rw [outcome_bind_ok htree]
    cases hj : ofJson? j with
    | none =>
      refine ⟨nofun, ?_⟩
      rintro ⟨k, hk, hv⟩
      obtain ⟨rfl, rfl⟩ := Prod.mk.inj (Except.ok.inj hk)
      rw [hj] at hv
      contradiction
    | some w =>
      constructor
      · intro h
        obtain ⟨rfl, rfl⟩ := Prod.mk.inj (Except.ok.inj h)
        exact ⟨j, rfl, hj⟩
      · rintro ⟨k, hk, hv⟩
        obtain ⟨rfl, rfl⟩ := Prod.mk.inj (Except.ok.inj hk)
        rw [hj] at hv
        rw [Option.some.inj hv]
        rfl

/-- **A text is read as a literal if it is read as a tree that is one**, and such trees have no
numbers but those of a document. -/
theorem ofJsonText_eq_ok_iff {text : String} : ofJsonText text = .ok v ↔
    ∃ j, Json.Reader.run (tree Json.maxDepth) text = .ok j ∧ j.isDocument = true ∧ Stands j v := by
  rw [ofJsonText, run_eq_ok_iff]
  constructor
  · rintro ⟨rest, hread, hend⟩
    obtain ⟨j, htree, hj⟩ := outcome_reader_iff.mp hread
    exact ⟨j, run_eq_ok_iff.mpr ⟨rest, htree, hend⟩,
      isDocument_of_tree Json.maxDepth _ j rest htree, (ofJson?_eq_some_iff j v).mp hj⟩
  · rintro ⟨j, hrun, -, hstands⟩
    obtain ⟨rest, htree, hend⟩ := run_eq_ok_iff.mp hrun
    exact ⟨rest, outcome_reader_iff.mpr ⟨j, htree, (ofJson?_eq_some_iff j v).mpr hstands⟩, hend⟩

end Value
end SqlBuilder
