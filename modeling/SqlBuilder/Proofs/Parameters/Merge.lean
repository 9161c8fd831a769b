import SqlBuilder.Proofs.Parameters

/-!
# Merging parameters

Merging binds the entries of other parameters one at a time, while the receiver grows. Parameters
are what binding their own entries leaves (`bindAll_entries`), so to merge one after the other is to
bind the entries of both in a row, and the laws of merging follow from those of binding a list: it
is associative with the empty parameters as unit (`merge_assoc`), the receiver is kept and what is
new comes after it in its own order (`entries_merge`), and nothing happens exactly when nothing is
new (`merge_eq_self_iff`). `merge_laws` states them together.
-/

namespace SqlBuilder

namespace Parameters

variable {t u : Parameters} {k : Binding.Key}

/-- Binding the entries of parameters gives the parameters. -/
theorem bindAll_entries (t : Parameters) : empty.bindAll t.entries = t :=
  Parameters.ext (entries_bindAll_of_nodup t.nodup_keys)

theorem merge_assoc (t u w : Parameters) : (t.merge u).merge w = t.merge (u.merge w) := by
  have hright : u.merge w = empty.bindAll (u.entries ++ w.entries) := by
    rw [bindAll_append, bindAll_entries]
    rfl
  calc (t.merge u).merge w = t.bindAll (u.entries ++ w.entries) := (bindAll_append ..).symm
    _ = t.merge (u.merge w) := by rw [hright, merge_bindAll]

/-- The receiver's entries stay, and the new ones follow in the order that they had. -/
theorem entries_merge (t u : Parameters) :
    (t.merge u).entries = t.entries ++ u.entries.filter (·.key ∉ t.keys) := by
  rw [merge, entries_bindAll, Binding.firstNew_eq_filter u.nodup_keys]

theorem mem_keys_merge : k ∈ (t.merge u).keys ↔ k ∈ t.keys ∨ k ∈ u.keys := by
  rw [merge, mem_keys_bindAll, keys, keys, List.mem_map (l := u.entries)]

theorem merge_eq_self_iff : t.merge u = t ↔ u.keys ⊆ t.keys := by
  constructor
  · intro h k hk
    rw [← h]
    exact mem_keys_merge.mpr (.inr hk)
  · intro h
    exact bindAll_of_mem fun b hb => h (List.mem_map_of_mem hb)

/-- Merged in either order, parameters have the same keys. -/
theorem keys_merge_perm (t u : Parameters) : (t.merge u).keys.Perm (u.merge t).keys := by
  refine (List.perm_ext_iff_of_nodup (t.merge u).nodup (u.merge t).nodup).mpr fun k => ?_
  rw [mem_keys_merge, mem_keys_merge, or_comm]

/-- **Merging parameters is an associative operation that the receiver dominates.**

The empty parameters are its unit. Merging changes nothing exactly when all keys are there already,
as in parameters merged into themselves, and the receiver merged back into the result adds nothing.
The result is the receiver with the entries of new keys after it, in the order of the other side. A
key has its value from the receiver if it is there, and from the other side if not, and in either
order of merging the keys are the same. -/
theorem merge_laws (t u w : Parameters) :
    (t.merge u).merge w = t.merge (u.merge w) ∧
    t.merge empty = t ∧ empty.merge t = t ∧
    t.merge t = t ∧ (t.merge u = t ↔ u.keys ⊆ t.keys) ∧
    (t.merge u).merge t = t.merge u ∧
    (t.merge u).entries = t.entries ++ u.entries.filter (·.key ∉ t.keys) ∧
    (∀ k, Binding.firstValue? (t.merge u).entries k =
      (Binding.firstValue? t.entries k).or (Binding.firstValue? u.entries k)) ∧
    (t.merge u).keys.Perm (u.merge t).keys := by
  refine ⟨merge_assoc t u w, rfl, bindAll_entries t, ?_, merge_eq_self_iff, ?_, entries_merge t u,
    firstValue?_bindAll t u.entries, keys_merge_perm t u⟩
  · exact merge_eq_self_iff.mpr (List.Subset.refl _)
  · exact merge_eq_self_iff.mpr fun k hk => mem_keys_merge.mpr (.inl hk)

/-- A NaN is a key like any other, the two zeros are two keys, and an array has its identity for a
key, under which the receiver's value stays. -/
example :
    let nan : Value := .float ⟨0x7ff8000000000001⟩
    let left := empty.bindAll [.literal nan, .literal (.float ⟨0⟩), .node 7 (.array [nan])]
    let right := empty.bindAll
      [.literal (.array [nan]), .node 7 .null, .literal (.float ⟨0x8000000000000000⟩), .literal nan]
    (left.merge right).values =
      [nan, .float ⟨0⟩, .array [nan], .array [nan], .float ⟨0x8000000000000000⟩] := by
  decide

end Parameters
end SqlBuilder
