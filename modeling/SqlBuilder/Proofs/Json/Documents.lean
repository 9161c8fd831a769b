import SqlBuilder.Proofs.Double.Rounding
import SqlBuilder.Proofs.Json.Numbers

/-!
# The numbers of a document

A tree that is read from a text has integers of 64 bits only, with a sign or without, and floats
that are finite (`Json.isDocument`).

* `readNumber_isDocument`: this is so for each number. A significand stays below `2 ^ 64`. It is
  multiplied only if the product is finite, and divided only by powers that are at least one, in at
  most four rounds (`scale_lt_infinite`).
* `isDocument_of_tree`: so it is for trees of any shape. What a reader can give is followed from
  its parts by `Reader.Yields`.
-/

namespace SqlBuilder.Json

variable {j : Json} {negative : Bool} {cs left : List Char}

mutual

/-- The numbers in the tree are numbers that a document can have: integers of 64 bits, with a sign
or without, and finite floats. -/
def isDocument : Json → Bool
  | integer n => decide (-(Nat.pow 2 63 : Int) ≤ n ∧ n < Nat.pow 2 64)
  | real x => x.isFinite
  | array items => itemsAreDocuments items
  | object fields => fieldsAreDocuments fields
  | _ => true

def itemsAreDocuments : List Json → Bool
  | [] => true
  | item :: items => item.isDocument && itemsAreDocuments items

def fieldsAreDocuments : List (String × Json) → Bool
  | [] => true
  | (_, value) :: fields => value.isDocument && fieldsAreDocuments fields

end

theorem isDocument_array (items : List Json) :
    (array items).isDocument = items.all isDocument := by
  rw [isDocument]
  induction items with
  | nil => rfl
  | cons item items ih => rw [itemsAreDocuments, ih, List.all_cons]

theorem isDocument_object (fields : List (String × Json)) :
    (object fields).isDocument = fields.all fun field => field.2.isDocument := by
  rw [isDocument]
  induction fields with
  | nil => rfl
  | cons field fields ih => rw [fieldsAreDocuments, ih, List.all_cons]

theorem isDocument_integer_iff {n : Int} :
    (integer n).isDocument = true ↔ -(Nat.pow 2 63 : Int) ≤ n ∧ n < Nat.pow 2 64 :=
  decide_eq_true_iff

theorem isDocument_real {m : Nat} (h : m < Double.infinite) :
    (real (.ofMagnitude negative m)).isDocument = true :=
  Double.isFinite_ofMagnitude h

/-! ## Single numbers -/

theorem one_le_power (n : Nat) : (Double.ratio (Double.ofNat (Nat.pow 10 n))).2 ≤
    (Double.ratio (Double.ofNat (Nat.pow 10 n))).1 :=
  Double.one_le_ratio_ofNat (Nat.pow_pos (by decide))

theorem zero_lt_infinite : 0 < Double.infinite := by decide

theorem scale_of_small {rounds f m k : Nat} {exponent : Int} (hf : f ≤ Double.limit k)
    (hk : k < 1023) (hexponent : exponent.natAbs ≤ 308) (h : scale rounds f exponent = some m) :
    m < Double.infinite := by
  unfold scale at h
  rw [if_pos hexponent] at h
  dsimp only at h
  split_ifs at h with _ hinfinite
  · rw [← Option.some.inj h]
    exact Double.nearest_lt_infinite hinfinite
  · rw [← Option.some.inj h]
    exact (Double.div_le hf (one_le_power _)).trans_lt (Double.limit_lt_infinite hk)

/-- **Scaling stays within the finite numbers** if there is room for one power of two in each
round. -/
theorem scale_lt_infinite {rounds f m k : Nat} {exponent : Int} (hf : f ≤ Double.limit k)
    (hk : k + rounds < 1023) (h : scale rounds f exponent = some m) : m < Double.infinite := by
  induction rounds generalizing f exponent k with
  | zero =>
    by_cases hexponent : exponent.natAbs ≤ 308
    · exact scale_of_small hf hk hexponent h
    · unfold scale at h
      rw [if_neg hexponent] at h
      split_ifs at h
      · rw [← Option.some.inj h]
        exact zero_lt_infinite
      · rw [← Option.some.inj h]
        exact zero_lt_infinite
  | succ rounds ih =>
    by_cases hexponent : exponent.natAbs ≤ 308
    · exact scale_of_small hf (Nat.lt_of_le_of_lt (Nat.le_add_right _ _) hk) hexponent h
    · unfold scale at h
      rw [if_neg hexponent] at h
      split_ifs at h
      · rw [← Option.some.inj h]
        exact zero_lt_infinite
      · exact ih (Double.div_le hf (one_le_power _)) (by omega) h

theorem takeDigits_lt {bound s : Nat} (hs : s < bound) (cs : List Char) :
    (takeDigits bound s cs).1 < bound := by
  induction cs generalizing s with
  | nil => exact hs
  | cons c cs ih =>
    rw [takeDigits]
    cases digit? c with
    | none => exact hs
    | some d =>
      dsimp only
      split_ifs with hd
      · exact ih hd
      · exact hs

theorem realOf_isDocument {significand : Nat} {exponent : Int} (hs : significand < Nat.pow 2 64)
    (h : (do return (← realOf negative significand exponent, cs)) = some (j, left)) :
    j.isDocument = true := by
  obtain ⟨k, hk, h⟩ := Option.bind_eq_some_iff.mp h
  obtain ⟨m, hm, rfl⟩ := Option.map_eq_some_iff.mp hk
  rw [← (Prod.mk.inj (Option.some.inj h)).1]
  exact isDocument_real (scale_lt_infinite (Double.ofNat_le hs) (by decide) hm)

theorem readExponent_isDocument {significand : Nat} {shift : Int} (hs : significand < Nat.pow 2 64)
    (h : readExponent negative significand shift cs = some (j, left)) : j.isDocument = true := by
  rw [readExponent_eq] at h
  unfold exponentDigits at h
  simp only [Option.bind_eq_bind, Option.bind_eq_some_iff] at h
  obtain ⟨-, -, h⟩ := h
  split_ifs at h
  · rw [← (Prod.mk.inj (Option.some.inj h)).1]
    exact isDocument_real zero_lt_infinite
  · exact realOf_isDocument hs h
  · exact realOf_isDocument hs h

theorem readFraction_isDocument {significand : Nat} {shift : Int} (hs : significand < Nat.pow 2 64)
    (h : readFraction negative significand shift cs = some (j, left)) : j.isDocument = true := by
  rw [readFraction_eq] at h
  simp only [Option.bind_eq_bind, Option.bind_eq_some_iff] at h
  obtain ⟨-, -, h⟩ := h
  have htaken := takeDigits_lt hs cs
  unfold afterDigits at h
  split at h
  · exact readExponent_isDocument htaken h
  · exact readExponent_isDocument htaken h
  · exact realOf_isDocument htaken h

theorem integerOf_isDocument {n : Nat} (h : n < Nat.pow 2 64) :
    (integerOf negative n).isDocument = true := by
  have hpow : Nat.pow 2 64 = Nat.pow 2 63 + Nat.pow 2 63 := rfl
  unfold integerOf
  split_ifs with _ hneg
  · exact isDocument_integer_iff.mpr (by omega)
  · exact isDocument_integer_iff.mpr (by omega)
  · exact isDocument_real ((Double.ofNat_le h).trans_lt (Double.limit_lt_infinite (by decide)))

/-- **A number that is read is one of a document**, however it is written. -/
theorem readNumber_isDocument (h : readNumber negative cs = some (j, left)) :
    j.isDocument = true := by
  rw [readNumber_eq] at h
  simp only [Option.bind_eq_bind, Option.bind_eq_some_iff] at h
  obtain ⟨first, -, h⟩ := h
  split_ifs at h
  have hs := takeDigits_lt (show 0 < Nat.pow 2 64 by decide) cs
  unfold afterSignificand afterWhole at h
  split at h
  · exact readFraction_isDocument hs h
  · exact readExponent_isDocument hs h
  · exact readExponent_isDocument hs h
  · dsimp only at h
    split_ifs at h
    · exact realOf_isDocument hs h
    · rw [← (Prod.mk.inj (Option.some.inj h)).1]
      exact integerOf_isDocument hs

/-! ## Trees -/

namespace Reader

variable {α β σ κ : Type} {P : α → Prop} {Q : β → Prop} {S : σ → Prop} {r : Reader α}
  {f : α → Reader β}

/-- What a reader gives, on whatever text, has a property. -/
def Yields (P : α → Prop) (r : Reader α) : Prop := ∀ cs a rest, outcome r cs = .ok (a, rest) → P a

theorem Yields.bind (hr : Yields P r) (hf : ∀ a, P a → Yields Q (f a)) : Yields Q (r >>= f) := by
  intro cs b rest h
  cases hrun : outcome r cs with
  | error e =>
    rw [outcome_bind_error hrun] at h
    contradiction
  | ok p =>
    rw [outcome_bind_ok hrun] at h
    exact hf p.1 (hr cs p.1 p.2 hrun) p.2 b rest h

theorem Yields.after (hf : ∀ a, Yields Q (f a)) : Yields Q (r >>= f) :=
  .bind (P := fun _ => True) (fun _ _ _ _ => trivial) fun a _ => hf a

theorem yields_pure {a : α} (h : P a) : Yields P (pure a) := by
  intro cs b rest hb
  rwa [← (Prod.mk.inj (Except.ok.inj hb)).1]

theorem yields_malformed : Yields P malformed := fun _ _ _ h => nomatch h

theorem yields_items {item : Reader α} (hitem : Yields P item) (fuel : Nat) (first : Bool) :
    Yields (fun xs => ∀ x ∈ xs, P x) (items item fuel first) := by
  induction fuel generalizing first with
  | zero => exact yields_malformed
  | succ fuel ih =>
    refine .after fun more => ?_
    split
    · exact hitem.bind fun x hx => (ih false).bind fun xs hxs =>
        yields_pure (List.forall_mem_cons.mpr ⟨hx, hxs⟩)
    · exact yields_pure nofun

theorem yields_fields (key : Reader κ) {field : κ → σ → Reader σ}
    (hfield : ∀ k s, S s → Yields S (field k s)) (fuel : Nat) (first : Bool) {s : σ} (hs : S s) :
    Yields S (fields key field fuel first s) := by
  induction fuel generalizing first s with
  | zero => exact yields_malformed
  | succ fuel ih =>
    refine .after fun more => ?_
    split
    · exact .after fun k => (hfield k s hs).bind fun t ht => ih false ht
    · exact yields_pure hs

theorem yields_number : Yields (fun j => j.isDocument = true) number := by
  intro cs j left h
  have hread := outcome_number_iff.mp h
  unfold signedNumber at hread
  split at hread
  · exact readNumber_isDocument hread
  · exact readNumber_isDocument hread

theorem yields_treeOf (fuel depth : Nat) :
    Yields (fun j => j.isDocument = true) (treeOf fuel depth) := by
  induction fuel generalizing depth with
  | zero => exact yields_malformed
  | succ fuel ih =>
    unfold treeOf
    refine .after fun c => ?_
    split
    · exact .after fun _ => yields_pure rfl
    · exact .after fun _ => yields_pure rfl
    · exact .after fun _ => yields_pure rfl
    · exact .after fun _ => yields_pure rfl
    · cases depth with
      | zero => exact yields_malformed
      | succ depth =>
        refine .after fun _ => (yields_items (ih depth) fuel true).bind fun xs hxs => ?_
        refine .after fun _ => yields_pure ?_
        rw [isDocument_array]
        exact List.all_eq_true.mpr hxs
    · cases depth with
      | zero => exact yields_malformed
      | succ depth =>
        have hfield (key : String) (fs : List (String × Json))
            (hfs : ∀ f ∈ fs, f.2.isDocument = true) :
            Yields (fun fs : List (String × Json) => ∀ f ∈ fs, f.2.isDocument = true) (do
              expect ':'
              return (key, ← treeOf fuel depth) :: fs) :=
          .after fun _ => (ih depth).bind fun j hj =>
            yields_pure (List.forall_mem_cons.mpr ⟨hj, hfs⟩)
        have hfields := yields_fields string hfield fuel true (s := [])
          fun _ h => absurd h List.not_mem_nil
        refine .after fun _ => hfields.bind fun fs hfs => .after fun _ => yields_pure ?_
        rw [isDocument_object]
        exact List.all_eq_true.mpr fun f hf => hfs f (List.mem_reverse.mp hf)
    · exact yields_number
    · exact yields_malformed

/-- **Every tree that is read is one of a document.** -/
theorem isDocument_of_tree (depth : Nat) : Yields (fun j => j.isDocument = true) (tree depth) :=
  .after fun fuel => yields_treeOf fuel depth

end Reader

end SqlBuilder.Json
