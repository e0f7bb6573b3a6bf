import Mathlib.Data.List.AList

/-!
# Finite maps

How the number of entries and the lookups of a finite map change when an entry is
written or removed.
-/

namespace Vaux

section

variable {α β : Type*} [DecidableEq α] {m : AList fun _ : α => β} {k k' : α} {v v' : β}

theorem length_insert (h : k ∉ m) : (m.insert k v).entries.length = m.entries.length + 1 := by
  rw [AList.entries_insert_of_notMem h, List.length_cons]

theorem length_erase (h : k ∈ m) : (m.erase k).entries.length + 1 = m.entries.length := by
  have hkeys : (m.erase k).keys.length + 1 = m.keys.length := by
    rw [AList.keys_erase, List.length_erase_of_mem (AList.mem_keys.mp h)]
    exact Nat.sub_add_cancel (List.length_pos_of_mem (AList.mem_keys.mp h))
  simpa [AList.keys, List.keys] using hkeys

theorem mem_of_lookup (h : m.lookup k = some v) : k ∈ m := by
  rw [← AList.lookup_isSome, h]
  rfl

theorem lookup_insert_eq :
    (m.insert k v).lookup k' = some v' ↔ k' = k ∧ v' = v ∨ k' ≠ k ∧ m.lookup k' = some v' := by
  by_cases h : k' = k
  · subst h
    rw [AList.lookup_insert, Option.some.injEq]
    simp [eq_comm]
  · rw [AList.lookup_insert_ne h]
    simp [h]

theorem lookup_erase_eq :
    (m.erase k).lookup k' = some v' ↔ k' ≠ k ∧ m.lookup k' = some v' := by
  by_cases h : k' = k
  · subst h
    rw [AList.lookup_erase]
    simp
  · rw [AList.lookup_erase_ne h]
    simp [h]

/-- A new entry that is removed again. -/
theorem erase_insert (h : k ∉ m) : (m.insert k v).erase k = m := by
  apply AList.ext
  show (m.insert k v).entries.kerase k = m.entries
  rw [AList.entries_insert_of_notMem h]
  exact List.kerase_cons_eq rfl

/-- An entry that is removed and put back. -/
theorem lookup_putBack (h : m.lookup k = some v) :
    ((m.erase k).insert k v).lookup k' = m.lookup k' := by
  by_cases hk : k' = k
  · subst hk
    exact (AList.lookup_insert _).trans h.symm
  · exact (AList.lookup_insert_ne hk).trans (AList.lookup_erase_ne hk)

/-- An entry that is removed and written again. -/
theorem length_insert_erase (h : k ∈ m) :
    ((m.erase k).insert k v).entries.length = m.entries.length := by
  have hnot : k ∉ m.erase k := fun hmem => (AList.mem_erase.mp hmem).1 rfl
  rw [length_insert hnot, length_erase h]

end

end Vaux
