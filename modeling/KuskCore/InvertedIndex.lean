import Mathlib

/-!
# Inverted indexes of association lists

A map `m` from keys to values, where each value holds a list of items (`items`), and an index
`idx` from items back to keys. `IsIndex items idx m` says that an item points to a key exactly
when that key's value holds it. The index then makes the values' item lists pairwise disjoint
(`IsIndex.unique`).

The two ways such a pair is updated keep the index: a fresh key is inserted with items that are
not indexed yet, each item pointed at the key (`IsIndex.insert`); and a key is erased together
with the index entries of its items (`IsIndex.erase`). `pointAll` and `eraseAll` are those two
loops over the items.
-/

namespace InvertedIndex

variable {κ ι V : Type} [DecidableEq ι]

/-- Point every item of the list at `k`, one after the other. -/
def pointAll (k : κ) (is : List ι) (idx : AList fun _ : ι => κ) : AList fun _ : ι => κ :=
  is.foldl (fun idx i => idx.insert i k) idx

/-- Erase the index entry of every item of the list. -/
def eraseAll (is : List ι) (idx : AList fun _ : ι => κ) : AList fun _ : ι => κ :=
  is.foldl (fun idx i => idx.erase i) idx

theorem lookup_pointAll (k : κ) (i : ι) :
    ∀ (is : List ι) (idx : AList fun _ : ι => κ),
      (pointAll k is idx).lookup i = if i ∈ is then some k else idx.lookup i
  | [], idx => by simp [pointAll]
  | j :: is, idx => by
    -- the last write to `i` wins, and every write is `k`
    have ih := lookup_pointAll k i is (idx.insert j k)
    rw [pointAll, List.foldl_cons] at *
    rw [ih]
    by_cases hi : i ∈ is
    · simp [hi]
    · by_cases hj : i = j
      · subst hj
        simp [AList.lookup_insert]
      · simp [hi, hj, AList.lookup_insert_ne hj]

theorem lookup_eraseAll (i : ι) :
    ∀ (is : List ι) (idx : AList fun _ : ι => κ),
      (eraseAll is idx).lookup i = if i ∈ is then none else idx.lookup i
  | [], idx => by simp [eraseAll]
  | j :: is, idx => by
    have ih := lookup_eraseAll i is (idx.erase j)
    rw [eraseAll, List.foldl_cons] at *
    rw [ih]
    by_cases hi : i ∈ is
    · simp [hi]
    · by_cases hj : i = j
      · subst hj
        simp [AList.lookup_erase]
      · simp [hi, hj, AList.lookup_erase_ne hj]

variable [DecidableEq κ] (items : V → List ι)

/-- An item points to a key exactly when the key's value holds the item. -/
def IsIndex (idx : AList fun _ : ι => κ) (m : AList fun _ : κ => V) : Prop :=
  ∀ i k, idx.lookup i = some k ↔ ∃ v, m.lookup k = some v ∧ i ∈ items v

variable {items} {idx : AList fun _ : ι => κ} {m : AList fun _ : κ => V}

theorem isIndex_empty : IsIndex items (∅ : AList fun _ : ι => κ) (∅ : AList fun _ : κ => V) := by
  intro i k
  simp [AList.lookup_empty]

/-- No item is held by the values of two keys. -/
theorem IsIndex.unique (h : IsIndex items idx m) {i : ι} {k₁ k₂ : κ} {v₁ v₂ : V}
    (h₁ : m.lookup k₁ = some v₁) (h₂ : m.lookup k₂ = some v₂) (hi₁ : i ∈ items v₁)
    (hi₂ : i ∈ items v₂) : k₁ = k₂ := by
  have e₁ := (h i k₁).mpr ⟨v₁, h₁, hi₁⟩
  have e₂ := (h i k₂).mpr ⟨v₂, h₂, hi₂⟩
  rw [e₁] at e₂
  exact Option.some.inj e₂

/-- A fresh key whose items are not indexed yet is indexed by pointing its items at it. -/
theorem IsIndex.insert (h : IsIndex items idx m) {k : κ} {v : V} (hk : m.lookup k = none)
    (hfree : ∀ i ∈ items v, idx.lookup i = none) :
    IsIndex items (pointAll k (items v) idx) (m.insert k v) := by
  intro i k'
  rw [lookup_pointAll]
  by_cases hk' : k' = k
  · -- the new key: only its own items point at it
    subst hk'
    rw [AList.lookup_insert]
    by_cases hi : i ∈ items v
    · simp [hi]
    · have hnot : idx.lookup i ≠ some k' := fun he => by
        obtain ⟨w, hw, -⟩ := (h i k').mp he
        rw [hk] at hw
        cases hw
      simp [hi, hnot]
  · -- another key: its items are not the new ones, since those were not indexed
    rw [AList.lookup_insert_ne hk']
    by_cases hi : i ∈ items v
    · have hnone := hfree i hi
      simp only [hi, if_true, Option.some.injEq]
      constructor
      · intro he
        exact absurd he.symm hk'
      · rintro ⟨w, hw, hiw⟩
        rw [(h i k').mpr ⟨w, hw, hiw⟩] at hnone
        cases hnone
    · simp only [hi, if_false]
      exact h i k'

/-- Erasing a key and the index entries of its items keeps the index. -/
theorem IsIndex.erase (h : IsIndex items idx m) {k : κ} {v : V} (hk : m.lookup k = some v) :
    IsIndex items (eraseAll (items v) idx) (m.erase k) := by
  intro i k'
  rw [lookup_eraseAll]
  by_cases hk' : k' = k
  · -- the erased key: nothing points at it any more
    subst hk'
    rw [AList.lookup_erase]
    by_cases hi : i ∈ items v
    · simp [hi]
    · have hnot : idx.lookup i ≠ some k' := fun he => by
        obtain ⟨w, hw, hiw⟩ := (h i k').mp he
        rw [hk] at hw
        exact hi (Option.some.inj hw ▸ hiw)
      simp [hi, hnot]
  · rw [AList.lookup_erase_ne hk']
    by_cases hi : i ∈ items v
    · -- an item of the erased key is held by no other key
      simp only [hi, if_true, reduceCtorEq, false_iff, not_exists, not_and]
      intro w hw hiw
      exact hk' (h.unique hw hk hiw hi)
    · simp only [hi, if_false]
      exact h i k'

end InvertedIndex
