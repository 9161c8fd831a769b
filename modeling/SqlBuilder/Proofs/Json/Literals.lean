import SqlBuilder.Json.Value
import SqlBuilder.Proofs.Json.Numbers
import SqlBuilder.Proofs.Value.Leaves

/-!
# Literals and their JSON texts

A literal is written without saying which kind it is, and the kind is found again from how the text
begins and, for numbers, from its form. Nothing is mistaken for another kind. What is lost are
floats that are not finite, which become null (`Value.storable`).

* `ofJson?_toJson`: on trees this holds for literals of any nesting.
* `gives_treeOf`: the text of a literal is read as its tree, as long as the literal nests no deeper
  than it may at that place (`Value.depth`). By induction on arrays; the items of an array stand one
  level deeper.
* `ofJsonText_toJson`: the text of a literal is read back, or refused if the literal nests too deep.

Strings and integers are read back whatever they are. A float is read back if its digits are
rounded to it again, which has to be known of each float (`Value.ReadsBack`): reading rounds more
than once.
-/

namespace SqlBuilder

/-- The double that a text is read as where a number is asked for. An integer is converted. -/
def Json.readDouble? (text : String) : Option Double :=
  match Json.Reader.number.outcome text.toList with
  | .ok (.integer n, []) => some (.ofMagnitude (n < 0) (Double.ofNat n.natAbs))
  | .ok (.real x, []) => some x
  | _ => none

namespace Value

mutual

/-- How many arrays are around the innermost literal. An empty array counts too. -/
def depth : Value → Nat
  | array items => depthOf items + 1
  | _ => 0

def depthOf : List Value → Nat
  | [] => 0
  | item :: items => max item.depth (depthOf items)

end

/-- A leaf as JSON keeps it: a float that is not finite becomes null. -/
def storableLeaf : Value → Value
  | float x => if x.isFinite then float x else null
  | v => v

/-- The literal as JSON keeps it. -/
def storable (v : Value) : Value := v.mapLeaves storableLeaf

/-- Every finite float in the literal is read back from its text where a number is asked for.
Whether it is read as a float or as an integer is left open. -/
def ReadsBack (v : Value) : Prop := ∀ x ∈ v.floats, x.isFinite = true →
  Json.readDouble? (Double.interchange.text x) = some x

instance (v : Value) : Decidable v.ReadsBack :=
  inferInstanceAs (Decidable (∀ x ∈ v.floats, x.isFinite = true →
    Json.readDouble? (Double.interchange.text x) = some x))

variable {v : Value} {items : List Value} {d : Nat}

/-! ## Nesting -/

theorem depthOf_le_iff : depthOf items ≤ d ↔ ∀ item ∈ items, item.depth ≤ d := by
  induction items with
  | nil => simp [depthOf]
  | cons item items ih => rw [depthOf, Nat.max_le, ih, List.forall_mem_cons]

theorem depth_array_le_iff : (array items).depth ≤ d + 1 ↔ ∀ item ∈ items, item.depth ≤ d := by
  rw [depth, Nat.add_le_add_iff_right, depthOf_le_iff]

theorem ReadsBack.of_mem {item : Value} (h : (array items).ReadsBack) (hitem : item ∈ items) :
    item.ReadsBack := by
  intro x hx
  refine h x ?_
  rw [mem_floats, leaves_array]
  exact List.mem_flatMap.mpr ⟨item, hitem, mem_floats.mp hx⟩

/-! ## What JSON keeps -/

theorem storable_array (items : List Value) :
    (array items).storable = array (items.map storable) := mapLeaves_array _ _

theorem storable_eq_self_iff : v.storable = v ↔ ∀ x ∈ v.floats, x.isFinite = true := by
  simp only [storable, mapLeaves_eq_self_iff, mem_floats]
  constructor
  · intro h x hx
    have hleaf := h _ hx
    by_cases hfinite : x.isFinite = true
    · exact hfinite
    · rw [show (float x).storableLeaf = null from if_neg hfinite] at hleaf
      exact Value.noConfusion hleaf
  · intro h leaf hleaf
    cases leaf with
    | float x => exact if_pos (h x hleaf)
    | _ => rfl

/-! ## Trees -/

theorem itemsToJson_eq_map (items : List Value) : itemsToJson items = items.map toJson := by
  induction items with
  | nil => rfl
  | cons item items ih => rw [itemsToJson, ih, List.map_cons]

theorem toJson_array (items : List Value) : (array items).toJson = .array (items.map toJson) := by
  rw [toJson, itemsToJson_eq_map]

theorem ofInteger_toInt (n : Int64) : ofInteger n.toInt = int n := by
  have hlow := n.le_toInt
  have hhigh := n.toInt_lt
  unfold ofInteger
  rw [if_pos ⟨hlow, hhigh⟩, Int64.ofInt_toInt]

theorem itemsOfJson?_map {f : Value → Json} {g : Value → Value}
    (h : ∀ item ∈ items, ofJson? (f item) = some (g item)) :
    itemsOfJson? (items.map f) = some (items.map g) := by
  induction items with
  | nil => rfl
  | cons item items ih =>
    obtain ⟨hitem, hitems⟩ := List.forall_mem_cons.mp h
    rw [List.map_cons, itemsOfJson?, hitem, ih hitems]
    rfl

/-- **A literal is found again in its tree**, whatever its nesting. -/
theorem ofJson?_toJson (v : Value) : ofJson? v.toJson = some v.storable := by
  induction v using arrayInduction with
  | array items ih =>
    rw [toJson_array, storable_array, ofJson?, itemsOfJson?_map ih]
    rfl
  | int n => exact congrArg some (ofInteger_toInt n)
  | float x =>
    rw [toJson, storable, mapLeaves, storableLeaf]
    · split <;> rfl
    · exact fun _ h => Value.noConfusion h
  | null | bool | text => rfl

end Value

/-! ## Texts -/

namespace Value

open Json.Reader

variable {v : Value} {items : List Value} {fuel : Nat}

/-- The characters of the literal's JSON text. -/
def jsonChars (v : Value) : List Char := v.toJson.text.toList

theorem jsonChars_array (items : List Value) : (array items).jsonChars =
    '[' :: ([','].intercalate (items.map jsonChars) ++ [']']) := by
  have htexts (js : List Json) : Json.itemTexts js = js.map Json.text := by
    induction js with
    | nil => rfl
    | cons j js ih => rw [Json.itemTexts, ih, List.map_cons]
  rw [jsonChars, toJson_array, Json.text, htexts]
  simp only [String.toList_append, String.toList_intercalate, List.map_map]
  rfl

theorem jsonChars_float (x : Double) : (float x).jsonChars =
    if x.isFinite then (Double.interchange.text x).toList else "null".toList := by
  rw [jsonChars, toJson]
  split
  · rename_i hfinite
    rw [Json.text, if_pos hfinite]
  · rfl

theorem begins_jsonChars (v : Value) : Begins v.jsonChars := by
  cases v with
  | null => exact ⟨'n', _, rfl, rfl, by decide⟩
  | bool b => cases b <;> exact ⟨_, _, rfl, rfl, by decide⟩
  | int n => exact (looksNumeric_toString n.toInt).begins
  | float x =>
    rw [jsonChars_float]
    split
    · exact (looksNumeric_text _ x).begins
    · exact ⟨'n', _, rfl, rfl, by decide⟩
  | text s => exact ⟨'"', _, toList_stringText s, rfl, by decide⟩
  | array items => exact ⟨'[', _, jsonChars_array items, rfl, by decide⟩

/-- A literal in an array is shorter than the array, and there are fewer items than characters. -/
theorem length_jsonChars_array (items : List Value) :
    items.length < (array items).jsonChars.length ∧
      ∀ item ∈ items, item.jsonChars.length + 1 < (array items).jsonChars.length := by
  have hrest (vs : List Value) : vs.length ≤ (vs.flatMap fun v => ',' :: v.jsonChars).length ∧
      ∀ v ∈ vs, v.jsonChars.length ≤ (vs.flatMap fun v => ',' :: v.jsonChars).length := by
    induction vs with
    | nil => exact ⟨Nat.le_refl _, fun _ h => absurd h List.not_mem_nil⟩
    | cons v vs ih =>
      simp only [List.flatMap_cons, List.length_append, List.length_cons, List.forall_mem_cons]
      refine ⟨by omega, by omega, fun w hw => ?_⟩
      have := ih.2 w hw
      omega
  rw [jsonChars_array]
  cases items with
  | nil => exact ⟨by decide, fun _ h => absurd h List.not_mem_nil⟩
  | cons v vs =>
    obtain ⟨hcount, hlength⟩ := hrest vs
    obtain ⟨c, cs, hv, -⟩ := v.begins_jsonChars
    rw [intercalate_cons]
    simp only [List.length_append, List.length_cons, List.length_nil, List.forall_mem_cons]
    have hpos : 1 ≤ v.jsonChars.length := by simp [hv]
    refine ⟨by omega, by omega, fun w hw => ?_⟩
    have := hlength w hw
    omega

/-! ## Reading trees -/

/-- A literal that is no array may stand at every depth. -/
theorem gives_leaf {cs : List Char} {depth : Nat} (hleaf : v.depth = 0)
    (h : Gives (treeOf fuel depth) cs (.ok v.toJson)) : Gives (treeOf fuel depth) cs
      (if v.depth ≤ depth then .ok v.toJson else .error .malformed) := by
  rwa [hleaf, if_pos (Nat.zero_le depth)]

/-- One of the words, when what it begins with tells that it is next. -/
theorem gives_word {letters : String} {j : Json} {r : Json.Reader Json}
    (h : ∀ rest, outcome r (letters.toList ++ rest) =
      outcome (word letters >>= fun _ => pure j) (letters.toList ++ rest)) :
    Gives r letters.toList (.ok j) := fun rest _ =>
  (h rest).trans (outcome_bind_ok (outcome_word letters rest))

theorem gives_null (depth : Nat) : Gives (treeOf (fuel + 1) depth) "null".toList (.ok .null) :=
  gives_word fun rest => outcome_bind_ok (outcome_peek rfl ("ull".toList ++ rest))

theorem gives_bool (b : Bool) (depth : Nat) :
    Gives (treeOf (fuel + 1) depth) (Json.bool b).text.toList (.ok (.bool b)) := by
  cases b with
  | true => exact gives_word fun rest => outcome_bind_ok (outcome_peek rfl ("rue".toList ++ rest))
  | false => exact gives_word fun rest => outcome_bind_ok (outcome_peek rfl ("alse".toList ++ rest))

theorem gives_text (s : String) (depth : Nat) :
    Gives (treeOf (fuel + 1) depth) (Json.stringText s).toList (.ok (.string s)) := by
  intro rest _
  have hstring := outcome_string s rest
  unfold treeOf
  rw [toList_stringText, List.cons_append] at hstring ⊢
  rw [outcome_bind_ok (outcome_peek rfl _)]
  exact outcome_bind_ok hstring

theorem gives_numeric {cs : List Char} {j : Json} (depth : Nat) (hlooks : LooksNumeric cs)
    (h : number.outcome cs = .ok (j, [])) : Gives (treeOf (fuel + 1) depth) cs (.ok j) := by
  intro rest hends
  rw [outcome_treeOf_number (hlooks.append rest)]
  exact gives_number h rest hends

theorem gives_int (n : Int64) (depth : Nat) :
    Gives (treeOf (fuel + 1) depth) (toString n.toInt).toList (.ok (.integer n.toInt)) := by
  have hhigh : n.toInt < Nat.pow 2 64 := Int.lt_trans n.toInt_lt (by decide)
  exact gives_numeric depth (looksNumeric_toString n.toInt)
    (outcome_number_toString n.le_toInt hhigh)

/-- The text of a float has a fraction or an exponent, so that it is read as a float. -/
theorem gives_float {x : Double} (depth : Nat)
    (h : Json.readDouble? (Double.interchange.text x) = some x) :
    Gives (treeOf (fuel + 1) depth) (Double.interchange.text x).toList (.ok (.real x)) := by
  refine gives_numeric depth (looksNumeric_text _ x) ?_
  unfold Json.readDouble? at h
  split at h
  · rename_i hread
    exact absurd hread (not_integer_of_text rfl)
  · rename_i hread
    rwa [Option.some.inj h] at hread
  · contradiction

theorem gives_array_zero (items : List Value) :
    Gives (treeOf (fuel + 1) 0) (array items).jsonChars (.error .malformed) := by
  intro rest _
  unfold treeOf
  rw [jsonChars_array, List.cons_append, outcome_bind_ok (outcome_peek rfl _)]
  rfl

/-- An array is read as its items are, one level deeper. -/
theorem gives_array {depth : Nat} (hitems : ∀ item ∈ items, Gives (treeOf fuel depth) item.jsonChars
      (if item.depth ≤ depth then .ok item.toJson else .error .malformed))
    (hfuel : items.length < fuel) : Gives (treeOf (fuel + 1) (depth + 1)) (array items).jsonChars
      (if (array items).depth ≤ depth + 1 then .ok (array items).toJson
        else .error .malformed) := by
  intro rest _
  rw [jsonChars_array, List.cons_append, List.append_assoc, List.singleton_append, toJson_array]
  unfold treeOf
  rw [outcome_bind_ok (outcome_peek rfl _)]
  change outcome (advance >>= fun _ => Json.Reader.items (treeOf fuel depth) fuel true >>=
    fun as => expect ']' >>= fun _ => pure (Json.array as)) _ = _
  rw [outcome_bind_ok (outcome_advance _ _)]
  simp only [depth_array_le_iff]
  exact outcome_items_end hitems (fun item _ => item.begins_jsonChars) hfuel rest

/-- **The text of a literal is read as its tree**, if the literal nests no deeper than it may. -/
theorem gives_treeOf (v : Value) : ∀ {fuel : Nat} (depth : Nat), v.ReadsBack →
    v.jsonChars.length ≤ fuel → Gives (treeOf (fuel + 1) depth) v.jsonChars
      (if v.depth ≤ depth then .ok v.toJson else .error .malformed) := by
  induction v using arrayInduction with
  | null => exact fun depth _ _ => gives_leaf rfl (gives_null depth)
  | bool b => exact fun depth _ _ => gives_leaf rfl (gives_bool b depth)
  | int n => exact fun depth _ _ => gives_leaf rfl (gives_int n depth)
  | text s => exact fun depth _ _ => gives_leaf rfl (gives_text s depth)
  | float x =>
    intro fuel depth hback _
    refine gives_leaf rfl ?_
    rw [jsonChars_float, toJson]
    split
    · rename_i hfinite
      exact gives_float depth (hback x (List.mem_singleton_self _) hfinite)
    · exact gives_null depth
  | array items ih =>
    intro fuel depth hback hfuel
    obtain ⟨hcount, hlength⟩ := length_jsonChars_array items
    cases depth with
    | zero =>
      rw [if_neg (fun hle : (array items).depth ≤ 0 => Nat.not_succ_le_zero _ hle)]
      exact gives_array_zero items
    | succ depth =>
      obtain ⟨fuel, rfl⟩ : ∃ n, fuel = n + 1 := ⟨fuel - 1, by omega⟩
      refine gives_array (fun item hitem => ?_) (by omega)
      have := hlength item hitem
      exact ih item hitem depth (hback.of_mem hitem) (by omega)

/-! ## Reading literals -/

/-- A text is all there is. -/
theorem run_of_gives {α : Type} {r : Json.Reader α} {out : Except ReadError α} {text : String}
    (h : Gives r text.toList out) : Json.Reader.run r text = out := by
  have hr := h [] ends_nil
  rw [List.append_nil] at hr
  change (outcome (r >>= fun a => _) text.toList).map Prod.fst = out
  cases out with
  | error e =>
    rw [outcome_bind_error hr]
    rfl
  | ok a =>
    rw [outcome_bind_ok hr]
    rfl

theorem gives_tree (depth : Nat) (h : v.ReadsBack) : Gives (tree depth) v.jsonChars
    (if v.depth ≤ depth then .ok v.toJson else .error .malformed) := by
  intro rest hends
  rw [tree, outcome_bind_ok (outcome_fuel _)]
  refine gives_treeOf v depth h ?_ rest hends
  rw [List.length_append]
  exact Nat.le_add_right _ _

theorem gives_reader (depth : Nat) (h : v.ReadsBack) : Gives (reader depth) v.jsonChars
    (if v.depth ≤ depth then .ok v.storable else .error .malformed) := by
  intro rest hends
  refine outcome_bind_ite (gives_tree depth h rest hends) ?_
  rw [ofJson?_toJson]
  rfl

/-- **The text of a literal is read back**, and refused if the literal nests too deep. -/
theorem ofJsonText_toJson (h : v.ReadsBack) : ofJsonText v.toJson.text =
    if v.depth ≤ Json.maxDepth then .ok v.storable else .error .malformed :=
  run_of_gives (gives_reader Json.maxDepth h)

end Value

end SqlBuilder
