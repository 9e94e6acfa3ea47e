import Mathlib.Data.List.AList

/-! Hash maps as association lists with unique keys. The order in which a
program meets the entries is unspecified, so it is an argument of the program. -/
abbrev HashMap (κ α : Type) := AList (fun _ : κ => α)

/-- One way of arranging whatever a hash map holds. -/
structure IterOrder (α : Type) where
  arrange : List α → List α
  perm : ∀ l, (arrange l).Perm l

namespace IterOrder
variable {α : Type}

/-- The entries as they are stored. -/
def stored : IterOrder α := ⟨id, fun l => .refl l⟩

@[simp] theorem mem_arrange (order : IterOrder α) (l : List α) (a : α) :
    a ∈ order.arrange l ↔ a ∈ l :=
  (order.perm l).mem_iff

end IterOrder

namespace HashMap
variable {κ α : Type} [DecidableEq κ]

def values (m : HashMap κ α) : List α := m.entries.map Sigma.snd

theorem mem_entries (m : HashMap κ α) (k : κ) (v : α) :
    (⟨k, v⟩ : Sigma fun _ : κ => α) ∈ m.entries ↔ m.lookup k = some v :=
  AList.mem_lookup_iff.symm

theorem mem_values (m : HashMap κ α) (v : α) : v ∈ values m ↔ ∃ k, m.lookup k = some v := by
  simp only [values, List.mem_map]
  constructor
  · rintro ⟨⟨k, w⟩, hm, rfl⟩
    exact ⟨k, (mem_entries m k w).mp hm⟩
  · rintro ⟨k, hk⟩
    exact ⟨⟨k, v⟩, (mem_entries m k v).mpr hk, rfl⟩

/-- Insertion replaces one entry and no other. -/
theorem lookup_insert (m : HashMap κ α) (k k' : κ) (v : α) :
    (m.insert k v).lookup k' = if k' = k then some v else m.lookup k' := by
  split
  · next h => subst h; exact AList.lookup_insert m
  · next h => exact AList.lookup_insert_ne h

/-- Removal takes out one entry and no other. -/
theorem lookup_erase (m : HashMap κ α) (k k' : κ) :
    (m.erase k).lookup k' = if k' = k then none else m.lookup k' := by
  split
  · next h => subst h; exact AList.lookup_erase k' m
  · next h => exact AList.lookup_erase_ne h

/-- The keys collected over a list of entries are those of the entries that qualify. -/
theorem mem_collected (p : α → Bool) (entries : List (Sigma fun _ : κ => α))
    (collected : HashMap κ Bool) (k : κ) :
    k ∈ entries.foldl (fun collected entry =>
        if p entry.2 then collected.insert entry.1 true else collected) collected ↔
      k ∈ collected ∨ ∃ entry ∈ entries, entry.1 = k ∧ p entry.2 = true := by
  induction entries generalizing collected with
  | nil => simp
  | cons entry entries ih =>
    rw [List.foldl_cons, ih, List.exists_mem_cons_iff]
    by_cases hp : p entry.2 = true
    · rw [if_pos hp, AList.mem_insert, eq_comm, or_assoc, and_iff_left hp]
      exact or_left_comm
    · rw [if_neg hp]
      simp [hp]

end HashMap
