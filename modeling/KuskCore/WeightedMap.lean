import Mathlib

/-!
# Weighted association lists

The total of a weight over the values of an association list, and what inserting and erasing a
key do to it: the total gains the weight of the new value and loses that of the value the key held
(`total_insert`, `total_erase`).
-/

namespace WeightedMap

variable {κ V : Type} [DecidableEq κ] (w : V → Nat)

/-- The sum of `w` over the values. -/
def total (m : AList fun _ : κ => V) : Nat := (m.entries.map fun e => w e.2).sum

/-- The weight of the value at a key, or zero. -/
def weightAt (k : κ) (m : AList fun _ : κ => V) : Nat := ((m.lookup k).map w).getD 0

omit [DecidableEq κ] in
@[simp] theorem total_empty : total w (∅ : AList fun _ : κ => V) = 0 := rfl

/-- Erasing a key takes the weight of its value off the total. -/
theorem total_erase (k : κ) (m : AList fun _ : κ => V) :
    total w (m.erase k) + weightAt w k m = total w m := by
  unfold total weightAt
  by_cases hk : k ∈ m.keys
  · -- the entry at `k` sits between two runs of other keys
    obtain ⟨v, l₁, l₂, -, hsplit, herase⟩ := List.exists_of_kerase hk
    have hlookup : m.lookup k = some v :=
      Option.mem_def.mp (List.mem_dlookup m.nodupKeys (by rw [hsplit]; simp))
    show ((m.entries.kerase k).map fun e => w e.2).sum + _ = _
    rw [herase, hlookup, hsplit]
    simp only [List.map_append, List.map_cons, List.sum_append, List.sum_cons, Option.map_some,
      Option.getD_some]
    omega
  · have hlookup : m.lookup k = none := AList.lookup_eq_none.mpr (AList.mem_keys.not.mpr hk)
    show ((m.entries.kerase k).map fun e => w e.2).sum + _ = _
    rw [List.kerase_of_notMem_keys hk, hlookup]
    rfl

/-- Inserting at a key adds the new value's weight and drops the old one's. -/
theorem total_insert (k : κ) (v : V) (m : AList fun _ : κ => V) :
    total w (m.insert k v) + weightAt w k m = w v + total w m := by
  have h := total_erase w k m
  unfold total at h ⊢
  rw [AList.entries_insert, List.map_cons, List.sum_cons, Nat.add_assoc]
  exact congrArg (w v + ·) h

theorem weightAt_insert_ne {k k' : κ} (h : k' ≠ k) (v : V) (m : AList fun _ : κ => V) :
    weightAt w k' (m.insert k v) = weightAt w k' m := by
  unfold weightAt
  rw [AList.lookup_insert_ne h]

@[simp] theorem weightAt_insert (k : κ) (v : V) (m : AList fun _ : κ => V) :
    weightAt w k (m.insert k v) = w v := by
  unfold weightAt
  rw [AList.lookup_insert]
  rfl

end WeightedMap
