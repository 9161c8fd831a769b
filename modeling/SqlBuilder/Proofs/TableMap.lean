import Mathlib.Data.List.Basic
import Mathlib.Data.List.Nodup
import SqlBuilder.TableMap

/-!
# Look-up in maps keyed by tables

A map is read through `get?`. Each operation has one equation that says what it does to every
look-up; `Distinct` says that no two entries have the same key, and every operation keeps it. Two
tables are the same to a map when their keys are (`Table.Key`).

Equality of maps, with the order of their entries, is about two operations in a row: what takes back
what, and what commutes. A map of lists is narrowed at a table by taking items out of its list;
`narrow` does that, and `narrow_alter` and `narrow_comm` are the two laws.
-/

namespace SqlBuilder.TableMap

variable {α : Type} {m : TableMap α} {t u : Table} {a : α} {i : Nat}

/-- No two entries have the same key. -/
def Distinct (m : TableMap α) : Prop := (m.keys.map Table.key).Nodup

/-! ## Look-up -/

@[simp]
theorem get?_nil : get? ([] : TableMap α) t = none := rfl

theorem get?_cons : get? ((u, a) :: m) t = if u.key = t.key then some a else m.get? t := by
  rw [get?, List.find?_cons]
  by_cases h : u.key = t.key
  · rw [if_pos h, Table.beq_iff.mpr h]
    rfl
  · rw [if_neg h, Bool.eq_false_iff.mpr (fun e => h (Table.beq_iff.mp e))]
    rfl

theorem get?_congr (h : t.key = u.key) : m.get? t = m.get? u := by
  induction m with
  | nil => rfl
  | cons entry m ih => rw [get?_cons, get?_cons, h, ih]

theorem get?_eq_none_iff : m.get? t = none ↔ ∀ u ∈ m.keys, u.key ≠ t.key := by
  induction m with
  | nil => simp [keys]
  | cons entry m ih =>
    rw [get?_cons, keys, List.map_cons, List.forall_mem_cons, ← keys, ← ih]
    split_ifs with h <;> simp [h]

theorem exists_of_get? (h : m.get? t = some a) : ∃ u, (u, a) ∈ m ∧ u.key = t.key := by
  induction m with
  | nil => exact absurd h (by simp)
  | cons entry m ih =>
    rw [get?_cons] at h
    split_ifs at h with hkey
    · cases h
      exact ⟨entry.1, List.mem_cons_self, hkey⟩
    · obtain ⟨u, hmem, hu⟩ := ih h
      exact ⟨u, List.mem_cons_of_mem _ hmem, hu⟩

theorem get?_of_mem (hm : m.Distinct) (hmem : (u, a) ∈ m) (h : u.key = t.key) :
    m.get? t = some a := by
  induction m with
  | nil => exact absurd hmem List.not_mem_nil
  | cons entry m ih =>
    unfold Distinct keys at hm
    rw [List.map_cons, List.map_cons, List.nodup_cons] at hm
    rw [get?_cons]
    rcases List.mem_cons.mp hmem with rfl | hmem
    · rw [if_pos h]
    · have hne : entry.1.key ≠ t.key := by
        intro e
        refine hm.1 (List.mem_map.mpr ⟨u, List.mem_map.mpr ⟨_, hmem, rfl⟩, ?_⟩)
        rw [h, e]
      rw [if_neg hne]
      exact ih hm.2 hmem

theorem index?_eq_some_iff (hm : m.Distinct) :
    m.index? t = some i ↔ ∃ u a, m[i]? = some (u, a) ∧ u.key = t.key := by
  unfold index?
  rw [List.findIdx?_eq_some_iff_getElem]
  constructor
  · rintro ⟨hlt, hkey, -⟩
    exact ⟨_, _, List.getElem?_eq_getElem hlt, Table.beq_iff.mp hkey⟩
  · rintro ⟨u, a, hget, hkey⟩
    obtain ⟨hlt, hi⟩ := List.getElem?_eq_some_iff.mp hget
    refine ⟨hlt, Table.beq_iff.mpr (by rw [hi, hkey]), fun j hj hj' => ?_⟩
    have hne := List.pairwise_iff_getElem.mp hm j i (by simpa [keys] using Nat.lt_trans hj hlt)
      (by simpa [keys] using hlt) hj
    simp only [keys, List.getElem_map, hi] at hne
    exact hne ((Table.beq_iff.mp hj').trans hkey.symm)

theorem index?_isSome_iff : (m.index? t).isSome = true ↔ ∃ u ∈ m.keys, u.key = t.key := by
  unfold index?
  rw [List.findIdx?_isSome, List.any_eq_true]
  constructor
  · rintro ⟨entry, hmem, hkey⟩
    exact ⟨entry.1, List.mem_map_of_mem hmem, Table.beq_iff.mp hkey⟩
  · rintro ⟨u, hmem, hkey⟩
    obtain ⟨entry, hentry, rfl⟩ := List.mem_map.mp hmem
    exact ⟨entry, hentry, Table.beq_iff.mpr hkey⟩

/-! ## Updates -/

theorem get?_alter (f : Option α → α) :
    (m.alter f t).get? u = if t.key = u.key then some (f (m.get? t)) else m.get? u := by
  induction m with
  | nil => rw [alter, get?_cons, get?_nil, get?_nil]
  | cons entry m ih =>
    unfold alter
    by_cases h : entry.1.key = t.key
    · rw [if_pos (Table.beq_iff.mpr h), get?_cons, get?_cons, get?_cons, h, if_pos rfl]
      split_ifs <;> rfl
    · rw [if_neg (fun e => h (Table.beq_iff.mp e)), get?_cons, get?_cons, get?_cons, ih, if_neg h]
      split_ifs with h₁ h₂
      · exact absurd (h₁.trans h₂.symm) h
      all_goals rfl

theorem get?_erase : (m.erase t).get? u = if t.key = u.key then none else m.get? u := by
  induction m with
  | nil => simp [erase]
  | cons entry m ih =>
    unfold erase
    rw [List.filter_cons, ← erase, get?_cons]
    by_cases h : entry.1.key = t.key
    · rw [if_neg (by simp [Table.beq_iff.mpr h]), ih, h]
      split_ifs <;> rfl
    · have hbeq : (entry.1 == t) = false := by
        rw [Bool.eq_false_iff]
        exact fun e => h (Table.beq_iff.mp e)
      rw [if_pos (by simp [hbeq]), get?_cons, ih]
      split_ifs with h₁ h₂
      · exact absurd (h₁.trans h₂.symm) h
      all_goals rfl

theorem get?_mapValues (f : α → α) :
    get? (m.map fun (u, a) => (u, f a)) t = (m.get? t).map f := by
  induction m with
  | nil => rfl
  | cons entry m ih =>
    rw [List.map_cons, get?_cons, get?_cons, ih]
    split_ifs <;> rfl

theorem get?_filterValues (hm : m.Distinct) (p : α → Bool) :
    get? (m.filter fun (_, a) => p a) t = (m.get? t).filter p := by
  induction m with
  | nil => rfl
  | cons entry m ih =>
    unfold Distinct keys at hm
    rw [List.map_cons, List.map_cons, List.nodup_cons] at hm
    rw [List.filter_cons, get?_cons]
    by_cases hkey : entry.1.key = t.key
    · rw [if_pos hkey, Option.filter_some]
      split_ifs with hp
      · rw [get?_cons, if_pos hkey]
      · rw [ih hm.2]
        have hnone : get? m t = none := get?_eq_none_iff.mpr fun u hu e =>
          hm.1 (List.mem_map.mpr ⟨u, hu, e.trans hkey.symm⟩)
        rw [hnone]
        rfl
    · rw [if_neg hkey]
      split_ifs with hp
      · rw [get?_cons, if_neg hkey, ih hm.2]
      · exact ih hm.2

/-- A key that is there keeps its place, and a new one goes to the end. -/
theorem keys_alter (f : Option α → α) (t : Table) :
    (m.alter f t).keys = if (m.get? t).isSome then m.keys else m.keys ++ [t] := by
  induction m with
  | nil => rfl
  | cons entry m ih =>
    rw [get?_cons, alter]
    by_cases h : entry.1.key = t.key
    · rw [if_pos (Table.beq_iff.mpr h), if_pos h]
      rfl
    · rw [if_neg (fun e => h (Table.beq_iff.mp e)), if_neg h, keys, List.map_cons, ← keys, ih]
      split_ifs <;> rfl

/-! ## Distinct keys -/

theorem key_mem_alter (f : Option α → α) (k : Table.Key) :
    k ∈ (m.alter f t).keys.map Table.key ↔ k ∈ m.keys.map Table.key ∨ k = t.key := by
  induction m with
  | nil => simp [alter, keys]
  | cons entry m ih =>
    unfold alter
    split_ifs with h
    · have := Table.beq_iff.mp h
      simp only [keys, List.map_cons, List.mem_cons, this]
      tauto
    · simp only [keys, List.map_cons, List.mem_cons] at ih ⊢
      rw [ih]
      tauto

theorem Distinct.alter (hm : m.Distinct) (f : Option α → α) : (m.alter f t).Distinct := by
  induction m with
  | nil => simp [TableMap.alter, Distinct, keys]
  | cons entry m ih =>
    rw [TableMap.alter]
    have hcons := hm
    unfold Distinct keys at hcons
    rw [List.map_cons, List.map_cons, List.nodup_cons] at hcons
    split_ifs with h
    · exact hm
    · unfold Distinct keys
      rw [List.map_cons, List.map_cons, List.nodup_cons, ← keys, key_mem_alter]
      refine ⟨?_, ih hcons.2⟩
      rintro (hold | hkey)
      · exact hcons.1 hold
      · exact h (Table.beq_iff.mpr hkey)

theorem Distinct.filter (hm : m.Distinct) (p : Table × α → Bool) :
    Distinct (m.filter p : TableMap α) :=
  hm.sublist ((List.filter_sublist.map Prod.fst).map Table.key)

theorem Distinct.erase (hm : m.Distinct) : (m.erase t).Distinct := hm.filter _

theorem Distinct.mapValues (hm : m.Distinct) (f : α → α) :
    Distinct (m.map fun (u, a) => (u, f a) : TableMap α) := by
  have hkeys : keys (m.map fun (u, a) => (u, f a)) = m.keys := List.map_map
  unfold Distinct
  rw [hkeys]
  exact hm

theorem eq_nil_iff : m = [] ↔ ∀ t, m.get? t = none := by
  constructor
  · rintro rfl t
    rfl
  · intro h
    cases m with
    | nil => rfl
    | cons entry m =>
      have := h entry.1
      rw [get?_cons, if_pos rfl] at this
      exact absurd this (by simp)

/-! ## Changes that are taken back -/

/-- Setting a value to what it is changes nothing. -/
theorem alter_of_get? {f : Option α → α} (h : m.get? t = some a) (hf : f (some a) = a) :
    m.alter f t = m := by
  induction m with
  | nil => exact absurd h.symm (Option.some_ne_none a)
  | cons entry m ih =>
    rw [get?_cons] at h
    rw [alter]
    split_ifs at h with hkey
    · cases h
      rw [if_pos (Table.beq_iff.mpr hkey), hf]
    · rw [if_neg (fun e => hkey (Table.beq_iff.mp e)), ih h]

/-- A new key goes to the end. -/
theorem alter_of_get?_eq_none {f : Option α → α} (h : m.get? t = none) :
    m.alter f t = m ++ [(t, f none)] := by
  induction m with
  | nil => rfl
  | cons entry m ih =>
    rw [get?_cons] at h
    split_ifs at h with hkey
    rw [alter, if_neg (fun e => hkey (Table.beq_iff.mp e)), ih h, List.cons_append]

theorem alter_alter (f g : Option α → α) :
    (m.alter f t).alter g t = m.alter (fun old => g (some (f old))) t := by
  induction m with
  | nil => simp [alter]
  | cons entry m ih =>
    by_cases hkey : entry.1 == t
    · simp [alter, hkey]
    · simp [alter, hkey, ih]

theorem erase_of_get?_eq_none (h : m.get? t = none) : m.erase t = m := by
  refine List.filter_eq_self.mpr fun entry hentry => ?_
  have hne := get?_eq_none_iff.mp h entry.1 (List.mem_map_of_mem hentry)
  rw [Bool.not_eq_true', Bool.eq_false_iff]
  exact fun e => hne (Table.beq_iff.mp e)

/-- Removing a key that was just added gives the map back. -/
theorem erase_alter {f : Option α → α} (h : m.get? t = none) : (m.alter f t).erase t = m := by
  rw [alter_of_get?_eq_none h, erase, List.filter_append, ← erase, erase_of_get?_eq_none h]
  simp

/-! ## Narrowing an entry -/

section Narrow

variable {β : Type} {m : TableMap (List β)} {f g : List β → List β}

/-- Narrows the list at a table, and drops the entry of a list that becomes empty. -/
def narrow (f : List β → List β) (t : Table) (m : TableMap (List β)) : TableMap (List β) :=
  match m.get? t with
  | none => m
  | some items => if (f items).isEmpty then m.erase t else m.alter (fun _ => f items) t

/-- What narrowing at a table makes of one entry. -/
def narrowEntry (f : List β → List β) (t : Table) (entry : Table × List β) :
    Option (Table × List β) :=
  if entry.1.key = t.key then
    if (f entry.2).isEmpty then none else some (entry.1, f entry.2)
  else some entry

theorem narrow_of_get? (h : ∀ items, m.get? t = some items → f items = items ∧ items ≠ []) :
    m.narrow f t = m := by
  unfold narrow
  split
  · rfl
  · rename_i items hget
    obtain ⟨hf, hne⟩ := h items hget
    rw [hf, if_neg (by simpa using hne), alter_of_get? hget rfl]

/-- Narrowing takes back what was added to a list or to the map. -/
theorem narrow_alter {p : Option (List β) → List β}
    (hsome : ∀ items, m.get? t = some items → f (p (some items)) = items ∧ items ≠ [])
    (hnone : m.get? t = none → f (p none) = []) : (m.alter p t).narrow f t = m := by
  have hget : (m.alter p t).get? t = some (p (m.get? t)) := by rw [get?_alter, if_pos rfl]
  unfold narrow
  rw [hget]
  cases hold : m.get? t with
  | none =>
    simp only [hnone hold, List.isEmpty_nil, if_true]
    exact erase_alter hold
  | some items =>
    obtain ⟨hf, hne⟩ := hsome items hold
    simp only [hf, List.isEmpty_eq_false_iff.mpr hne, Bool.false_eq_true, if_false]
    rw [alter_alter, alter_of_get? hold rfl]

theorem Distinct.narrow (hm : m.Distinct) : (m.narrow f t).Distinct := by
  unfold TableMap.narrow
  split
  · exact hm
  · split_ifs
    · exact hm.erase
    · exact hm.alter _

theorem narrow_cons_of_ne {entry : Table × List β} (h : entry.1.key ≠ t.key) :
    narrow f t (entry :: m) = entry :: narrow f t m := by
  have hbeq : (entry.1 == t) = false := Bool.eq_false_iff.mpr fun e => h (Table.beq_iff.mp e)
  unfold TableMap.narrow
  rw [get?_cons, if_neg h]
  split
  · rfl
  · split_ifs
    · simp [erase, hbeq]
    · simp [TableMap.alter, hbeq]

theorem narrowEntry_of_ne {entry : Table × List β} (h : entry.1.key ≠ t.key) :
    narrowEntry f t entry = some entry := if_neg h

/-- With distinct keys, narrowing goes through the entries one by one. -/
theorem narrow_eq_filterMap (hm : m.Distinct) : m.narrow f t = m.filterMap (narrowEntry f t) := by
  induction m with
  | nil => rfl
  | cons entry m ih =>
    have hcons := hm
    unfold Distinct keys at hcons
    rw [List.map_cons, List.map_cons, List.nodup_cons] at hcons
    by_cases hkey : entry.1.key = t.key
    · have hne : ∀ later ∈ m, later.1.key ≠ t.key := fun later hlater e =>
        hcons.1 (List.mem_map.mpr ⟨later.1, List.mem_map_of_mem hlater, e.trans hkey.symm⟩)
      have hrest : m.filterMap (narrowEntry f t) = m := by
        rw [List.filterMap_congr fun later hlater => narrowEntry_of_ne (hne later hlater),
          List.filterMap_some]
      have hbeq := Table.beq_iff.mpr hkey
      have herase : TableMap.erase m t = m := erase_of_get?_eq_none <| get?_eq_none_iff.mpr <| by
        rintro u hu
        obtain ⟨later, hlater, rfl⟩ := List.mem_map.mp hu
        exact hne later hlater
      rw [List.filterMap_cons, hrest]
      unfold TableMap.narrow narrowEntry
      rw [get?_cons, if_pos hkey, if_pos hkey]
      simp only
      split_ifs
      · rw [TableMap.erase, List.filter_cons_of_neg (by simp [hbeq]), ← TableMap.erase, herase]
      · simp [TableMap.alter, hbeq]
    · rw [narrow_cons_of_ne hkey, List.filterMap_cons_some (narrowEntry_of_ne hkey),
        ih hcons.2]

/-- Narrowing an entry twice is narrowing it once by both. -/
theorem narrowEntry_bind {entry : Table × List β} (ht : entry.1.key = t.key)
    (hu : entry.1.key = u.key) (hg : g [] = []) :
    (narrowEntry f t entry).bind (narrowEntry g u) = narrowEntry (g ∘ f) t entry := by
  unfold narrowEntry
  rw [if_pos ht, if_pos ht, Function.comp_apply]
  by_cases hf : f entry.2 = []
  · simp [hf, hg]
  · simp [hf, hu]

/-- Narrowing at another table leaves an entry alone, also when it was narrowed before. -/
theorem narrowEntry_bind_of_ne {entry : Table × List β} (ht : entry.1.key ≠ t.key) :
    (narrowEntry g u entry).bind (narrowEntry f t) = narrowEntry g u entry := by
  have hkeep : ∀ items : List β, narrowEntry f t (entry.1, items) = some (entry.1, items) :=
    fun _ => narrowEntry_of_ne ht
  unfold narrowEntry at hkeep ⊢
  split_ifs
  · rfl
  · exact hkeep _
  · exact hkeep _

theorem narrowEntry_comm {entry : Table × List β} (hf : f [] = []) (hg : g [] = [])
    (hcomm : f (g entry.2) = g (f entry.2)) :
    (narrowEntry f t entry).bind (narrowEntry g u) =
      (narrowEntry g u entry).bind (narrowEntry f t) := by
  by_cases ht : entry.1.key = t.key
  · by_cases hu : entry.1.key = u.key
    · rw [narrowEntry_bind ht hu hg, narrowEntry_bind hu ht hf]
      simp only [narrowEntry, Function.comp_apply, hcomm, if_pos ht, if_pos hu]
    · rw [narrowEntry_bind_of_ne hu, narrowEntry_of_ne hu, Option.bind_some]
  · rw [narrowEntry_bind_of_ne ht, narrowEntry_of_ne ht, Option.bind_some]

/-- Narrowings commute, at one table if what they do to its list does, and at two tables. -/
theorem narrow_comm (hm : m.Distinct) (hf : f [] = []) (hg : g [] = [])
    (hcomm : ∀ entry ∈ m, f (g entry.2) = g (f entry.2)) :
    (m.narrow f t).narrow g u = (m.narrow g u).narrow f t := by
  rw [narrow_eq_filterMap hm.narrow, narrow_eq_filterMap hm, narrow_eq_filterMap hm.narrow,
    narrow_eq_filterMap hm, List.filterMap_filterMap, List.filterMap_filterMap]
  exact List.filterMap_congr fun entry hentry => narrowEntry_comm hf hg (hcomm entry hentry)

end Narrow
end SqlBuilder.TableMap
