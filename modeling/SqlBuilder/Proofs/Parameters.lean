import Mathlib.Data.List.Nodup
import SqlBuilder.Parameters

/-!
# First-seen order of parameters

The ordinal of a key is its 1-based position among the keys (`ordinal?_eq_some_position`), which
two keys never share. `firstNew` is the rule that binding follows: of a list of literals, those
whose keys are not known yet, each key at its first occurrence. Binding a list appends exactly
these (`entries_bindAll`), and nothing that is bound later moves an ordinal (`ordinal?_of_prefix`)
or changes the value under a key (`firstValue?_bindAll`). Binding literals apart and merging is
binding them in place (`merge_bindAll`).
-/

namespace SqlBuilder

/-- The literals of a list whose keys were not seen, each at the first occurrence of its key. -/
def Binding.firstNew (seen : List Binding.Key) : List Binding → List Binding
  | [] => []
  | b :: bs => if b.key ∈ seen then firstNew seen bs else b :: firstNew (seen ++ [b.key]) bs

namespace Binding

/-- Taking out what is known and then what is seen by now is taking out what is seen. -/
theorem firstNew_firstNew {known seen : List Key} (h : known ⊆ seen) (bs : List Binding) :
    firstNew seen (firstNew known bs) = firstNew seen bs := by
  induction bs generalizing known seen with
  | nil => rfl
  | cons b bs ih =>
    by_cases hknown : b.key ∈ known
    · rw [firstNew, if_pos hknown, firstNew, if_pos (h hknown), ih h]
    · have hstep : firstNew known (b :: bs) = b :: firstNew (known ++ [b.key]) bs := by
        rw [firstNew, if_neg hknown]
      rw [hstep, firstNew, firstNew]
      by_cases hseen : b.key ∈ seen
      · rw [if_pos hseen, if_pos hseen, ih]
        exact List.append_subset.mpr ⟨h, List.cons_subset.mpr ⟨hseen, List.nil_subset _⟩⟩
      · rw [if_neg hseen, if_neg hseen, ih]
        exact List.append_subset.mpr
          ⟨List.subset_append_of_subset_left _ h, List.subset_append_right _ _⟩

/-- Of literals with different keys, the new ones are those whose keys were not seen. -/
theorem firstNew_eq_filter {seen : List Key} {bs : List Binding} (h : (bs.map key).Nodup) :
    firstNew seen bs = bs.filter (·.key ∉ seen) := by
  induction bs generalizing seen with
  | nil => rfl
  | cons b bs ih =>
    obtain ⟨hb, hbs⟩ := List.nodup_cons.mp h
    rw [firstNew]
    by_cases hseen : b.key ∈ seen
    · rw [if_pos hseen, List.filter_cons_of_neg (by simpa using hseen), ih hbs]
    · rw [if_neg hseen, List.filter_cons_of_pos (by simpa using hseen), ih hbs]
      congr 1
      refine List.filter_congr fun c hc => ?_
      have hne : c.key ≠ b.key := fun e => hb (e ▸ List.mem_map_of_mem hc)
      simp [hne]

/-- The keys of the new literals are the keys that were not seen, without repetitions. -/
theorem keys_firstNew (seen : List Key) (bs : List Binding) :
    (firstNew seen bs).map key = ((bs.map key).filter (· ∉ seen)).eraseDups := by
  induction bs generalizing seen with
  | nil => rfl
  | cons b bs ih =>
    rw [firstNew, List.map_cons]
    by_cases h : b.key ∈ seen
    · rw [if_pos h, ih, List.filter_cons_of_neg (by simpa using h)]
    · rw [if_neg h, List.map_cons, ih, List.filter_cons_of_pos (by simpa using h),
        List.eraseDups_cons, List.filter_filter]
      congr 2
      refine List.filter_congr fun k _ => ?_
      by_cases hk : k = b.key <;> by_cases hs : k ∈ seen <;> simp [hk, hs, h]

/-! ## The first value of a key -/

/-- The value of the first literal with a key. -/
def firstValue? (bs : List Binding) (k : Key) : Option Value :=
  (bs.find? (·.key = k)).map value

theorem firstValue?_append (bs cs : List Binding) (k : Key) :
    firstValue? (bs ++ cs) k = (firstValue? bs k).or (firstValue? cs k) := by
  unfold firstValue?
  rw [List.find?_append]
  cases bs.find? (·.key = k) <;> rfl

theorem firstValue?_cons (b : Binding) (bs : List Binding) (k : Key) :
    firstValue? (b :: bs) k = if b.key = k then some b.value else firstValue? bs k := by
  unfold firstValue?
  rw [List.find?_cons]
  by_cases h : b.key = k <;> simp [h]

theorem firstValue?_isSome_iff {bs : List Binding} {k : Key} :
    (firstValue? bs k).isSome = true ↔ k ∈ bs.map key := by
  simp [firstValue?]

/-- Taking out the literals of other keys that were seen, and repetitions, keeps first values. -/
theorem firstValue?_firstNew {seen : List Key} {k : Key} (h : k ∉ seen) (bs : List Binding) :
    firstValue? (firstNew seen bs) k = firstValue? bs k := by
  induction bs generalizing seen with
  | nil => rfl
  | cons b bs ih =>
    rw [firstNew, firstValue?_cons]
    by_cases hseen : b.key ∈ seen
    · rw [if_pos hseen, ih h, if_neg fun (e : b.key = k) => h (e ▸ hseen)]
    · rw [if_neg hseen, firstValue?_cons]
      by_cases hk : b.key = k
      · rw [if_pos hk, if_pos hk]
      · have hnot : k ∉ seen ++ [b.key] := by
          simpa [h] using Ne.symm hk
        rw [if_neg hk, if_neg hk, ih hnot]

end Binding

namespace Parameters

variable {t u : Parameters} {b : Binding} {k l : Binding.Key} {n : Nat}

def keys (t : Parameters) : List Binding.Key := t.entries.map Binding.key

/-- The 1-based position of a key. -/
def position (t : Parameters) (k : Binding.Key) : Nat := t.keys.idxOf k + 1

theorem length_keys (t : Parameters) : t.keys.length = t.size := List.length_map _

theorem nodup (t : Parameters) : t.keys.Nodup := t.nodup_keys

/-! ## Ordinals are positions -/

theorem ordinal?_eq_none_iff : t.ordinal? k = none ↔ k ∉ t.keys := by
  constructor
  · exact notMem_of_ordinal?_eq_none
  · intro h
    simp only [ordinal?, Option.map_eq_none_iff, List.findIdx?_eq_none_iff]
    intro b hb
    have : b.key ≠ k := fun e => h (List.mem_map.mpr ⟨b, hb, e⟩)
    simpa using this

theorem ordinal?_eq_some_position (h : k ∈ t.keys) : t.ordinal? k = some (t.position k) := by
  have hlt : t.keys.idxOf k < t.keys.length := List.idxOf_lt_length_of_mem h
  have hfind : t.keys.findIdx? (· == k) = some (t.keys.idxOf k) := by
    rw [List.findIdx?_eq_guard_findIdx_lt]
    exact Option.guard_eq_some_iff.mpr ⟨rfl, decide_eq_true hlt⟩
  unfold keys at hfind
  rw [List.findIdx?_map] at hfind
  unfold ordinal?
  exact congrArg (Option.map (· + 1)) hfind

theorem mem_keys_of_ordinal? (h : t.ordinal? k = some n) : k ∈ t.keys := by
  by_contra hk
  rw [ordinal?_eq_none_iff.mpr hk] at h
  exact absurd h (by simp)

theorem ordinal?_eq_some_iff : t.ordinal? k = some n ↔ k ∈ t.keys ∧ t.position k = n := by
  constructor
  · intro h
    have hk := mem_keys_of_ordinal? h
    rw [ordinal?_eq_some_position hk] at h
    exact ⟨hk, Option.some.inj h⟩
  · rintro ⟨hk, rfl⟩
    exact ordinal?_eq_some_position hk

theorem position_inj (hk : k ∈ t.keys) : t.position k = t.position l ↔ k = l := by
  constructor
  · intro h
    exact (List.idxOf_inj hk).mp (Nat.succ.inj h)
  · rintro rfl
    rfl

theorem position_pos : 1 ≤ t.position k := Nat.succ_le_succ (Nat.zero_le _)

theorem position_le_size (hk : k ∈ t.keys) : t.position k ≤ t.size := by
  rw [← length_keys]
  exact List.idxOf_lt_length_of_mem hk

theorem position_of_getElem? {i : Nat} (h : t.keys[i]? = some k) : t.position k = i + 1 := by
  obtain ⟨hlt, rfl⟩ := List.getElem?_eq_some_iff.mp h
  rw [position, t.nodup.idxOf_getElem i hlt]

theorem map_position_keys (t : Parameters) : t.keys.map t.position = List.range' 1 t.size := by
  refine List.ext_getElem (by simp [length_keys]) fun i hi hi' => ?_
  have hlt : i < t.keys.length := by simpa using hi
  rw [List.getElem_map, List.getElem_range', position_of_getElem? (List.getElem?_eq_getElem hlt)]
  omega

/-- Ordinals are dense: each from 1 to the size is the position of some key. -/
theorem exists_position_eq (hpos : 1 ≤ n) (hle : n ≤ t.size) : ∃ k ∈ t.keys, t.position k = n := by
  have hlt : n - 1 < t.keys.length := by
    rw [length_keys]
    omega
  refine ⟨t.keys[n - 1], List.getElem_mem hlt, ?_⟩
  rw [position_of_getElem? (List.getElem?_eq_getElem hlt)]
  omega

/-! ## Binding appends -/

theorem bind_of_mem (h : b.key ∈ t.keys) : t.bind b = (t.position b.key, t) := by
  unfold bind
  split
  · rename_i m hm
    rw [ordinal?_eq_some_position h] at hm
    rw [Option.some.inj hm]
  · rename_i hn
    exact absurd h (ordinal?_eq_none_iff.mp hn)

theorem entries_bind_of_notMem (h : b.key ∉ t.keys) : (t.bind b).2.entries = t.entries ++ [b] := by
  unfold bind
  split
  · rename_i m hm
    exact absurd (mem_keys_of_ordinal? hm) h
  · rfl

theorem bind_fst_of_notMem (h : b.key ∉ t.keys) : (t.bind b).1 = t.size + 1 := by
  unfold bind
  split
  · rename_i m hm
    exact absurd (mem_keys_of_ordinal? hm) h
  · rfl

/-- The ordinal that binding returns is the one the key has afterwards. -/
theorem ordinal?_bind (t : Parameters) (b : Binding) :
    (t.bind b).2.ordinal? b.key = some (t.bind b).1 := by
  by_cases h : b.key ∈ t.keys
  · rw [bind_of_mem h]
    exact ordinal?_eq_some_position h
  · have hkeys : (t.bind b).2.keys = t.keys ++ [b.key] := by
      unfold keys
      rw [entries_bind_of_notMem h, List.map_append]
      rfl
    have hmem : b.key ∈ (t.bind b).2.keys := by simp [hkeys]
    rw [ordinal?_eq_some_position hmem, position, hkeys, List.idxOf_append_of_notMem h,
      List.idxOf_cons_self, bind_fst_of_notMem h, length_keys]

/-- Parameters that only grew at the end keep every ordinal. -/
theorem ordinal?_of_prefix (h : t.entries <+: u.entries) (hk : t.ordinal? k = some n) :
    u.ordinal? k = some n := by
  obtain ⟨hmem, rfl⟩ := ordinal?_eq_some_iff.mp hk
  obtain ⟨rest, hrest⟩ := h
  have hkeys : u.keys = t.keys ++ rest.map Binding.key := by
    rw [keys, ← hrest, List.map_append]
    rfl
  refine ordinal?_eq_some_iff.mpr ⟨by simp [hkeys, hmem], ?_⟩
  rw [position, hkeys, List.idxOf_append_of_mem hmem]
  rfl

/-! ## Binding a list -/

/-- **Binding a list appends what is new**, each key at its first occurrence. -/
theorem entries_bindAll (bs : List Binding) (t : Parameters) :
    (t.bindAll bs).entries = t.entries ++ Binding.firstNew t.keys bs := by
  induction bs generalizing t with
  | nil => exact (List.append_nil _).symm
  | cons b bs ih =>
    show ((t.bind b).2.bindAll bs).entries = _
    rw [ih, Binding.firstNew]
    by_cases h : b.key ∈ t.keys
    · rw [if_pos h, bind_of_mem h]
    · have hentries := entries_bind_of_notMem h
      have hkeys : (t.bind b).2.keys = t.keys ++ [b.key] := by
        unfold keys
        rw [hentries, List.map_append]
        rfl
      rw [if_neg h, hkeys, hentries, List.append_assoc]
      rfl

theorem prefix_bindAll (t : Parameters) (bs : List Binding) :
    t.entries <+: (t.bindAll bs).entries := ⟨_, (entries_bindAll bs t).symm⟩

theorem bindAll_append (t : Parameters) (bs cs : List Binding) :
    t.bindAll (bs ++ cs) = (t.bindAll bs).bindAll cs := List.foldl_append

/-- A key keeps the value that it has, and otherwise gets the first that is bound. -/
theorem firstValue?_bindAll (t : Parameters) (bs : List Binding) (k : Binding.Key) :
    Binding.firstValue? (t.bindAll bs).entries k =
      (Binding.firstValue? t.entries k).or (Binding.firstValue? bs k) := by
  rw [entries_bindAll, Binding.firstValue?_append]
  by_cases h : k ∈ t.keys
  · obtain ⟨v, hv⟩ := Option.isSome_iff_exists.mp (Binding.firstValue?_isSome_iff.mpr h)
    rw [hv, Option.some_or, Option.some_or]
  · rw [Binding.firstValue?_firstNew h]

/-- Literals whose keys are all there leave the parameters as they are. -/
theorem bindAll_of_mem {bs : List Binding} (h : ∀ b ∈ bs, b.key ∈ t.keys) : t.bindAll bs = t := by
  induction bs with
  | nil => rfl
  | cons b bs ih =>
    obtain ⟨hb, hbs⟩ := List.forall_mem_cons.mp h
    show (t.bind b).2.bindAll bs = t
    rw [bind_of_mem hb, ih hbs]

/-- What was bound can be looked up. -/
theorem mem_keys_bindAll {bs : List Binding} :
    k ∈ (t.bindAll bs).keys ↔ k ∈ t.keys ∨ ∃ b ∈ bs, b.key = k := by
  induction bs generalizing t with
  | nil => simp [bindAll]
  | cons b bs ih =>
    show k ∈ ((t.bind b).2.bindAll bs).keys ↔ _
    rw [ih, List.exists_mem_cons_iff, ← or_assoc]
    refine or_congr_left ?_
    by_cases h : b.key ∈ t.keys
    · rw [bind_of_mem h]
      exact ⟨Or.inl, fun hk => hk.elim id (fun e => e ▸ h)⟩
    · rw [keys, entries_bind_of_notMem h, List.map_append, List.mem_append, List.map_singleton,
        List.mem_singleton, eq_comm (a := k)]
      rfl

theorem key_mem_keys_bindAll {bs : List Binding} (h : b ∈ bs) : b.key ∈ (t.bindAll bs).keys :=
  mem_keys_bindAll.mpr (.inr ⟨b, h, rfl⟩)

/-! ## Binding without parameters before -/

/-- **Binding apart and merging is binding**, whatever was bound before. -/
theorem merge_bindAll (t : Parameters) (bs : List Binding) :
    t.merge (empty.bindAll bs) = t.bindAll bs := by
  have hempty : (empty.bindAll bs).entries = Binding.firstNew [] bs := entries_bindAll bs empty
  ext1
  rw [merge, hempty, entries_bindAll, entries_bindAll,
    Binding.firstNew_firstNew (List.nil_subset _)]

theorem entries_bindAll_of_nodup {bs : List Binding} (h : (bs.map Binding.key).Nodup) :
    (empty.bindAll bs).entries = bs := by
  rw [entries_bindAll, Binding.firstNew_eq_filter h]
  exact List.filter_eq_self.mpr fun b _ => by simp [empty, keys]

theorem keys_bindAll_empty (bs : List Binding) :
    (empty.bindAll bs).keys = (bs.map Binding.key).eraseDups := by
  have hall : (bs.map Binding.key).filter (· ∉ ([] : List Binding.Key)) = bs.map Binding.key :=
    List.filter_eq_self.mpr fun k _ => by simp
  rw [keys, entries_bindAll, ← hall, ← Binding.keys_firstNew []]
  rfl

end Parameters
end SqlBuilder
