import Mathlib

/-!
# Go maps written in a loop

A Go map is an association list of distinct keys. Two loops fill one from a list:
`m[key(x)] = x`, after which each key holds the last item with that key (`lookup_foldl_insert`),
and `m[key(x)] += val(x)` in unsigned arithmetic of modulus `w`, where a missing key reads as
zero and every sum wraps: the tally holds at a key the wrapped sum of the values of that key's
items, and a key no item has stays absent (`lookup_tally`).

Two maps agree when every entry of one is in the other and they have as many entries
(`lookup_eq_of_subset`): the comparison Go makes with `len` and one loop over a map.
-/

namespace GoMap

variable {κ α : Type} [DecidableEq κ] (key : α → κ) (val : α → Nat) (w : Nat)

/-- After `m[key(x)] = x` for each item in turn, a key holds the last item with that key, or
what it held before. -/
theorem lookup_foldl_insert (k : κ) :
    ∀ (xs : List α) (m : AList fun _ : κ => α),
      (xs.foldl (fun m x => m.insert (key x) x) m).lookup k =
        (xs.reverse.find? fun x => key x = k).or (m.lookup k)
  | [], m => by simp
  | x :: xs, m => by
    rw [List.foldl_cons, lookup_foldl_insert k xs, List.reverse_cons, List.find?_append]
    by_cases hx : key x = k
    · subst hx
      simp [AList.lookup_insert]
    · simp [hx, AList.lookup_insert_ne (Ne.symm hx)]

/-- `m[key x] += val x`, modulo `w`. -/
def add (m : AList fun _ : κ => Nat) (x : α) : AList fun _ : κ => Nat :=
  m.insert (key x) (((m.lookup (key x)).getD 0 + val x) % w)

/-- The tally of a list, from the empty map. -/
def tally (xs : List α) : AList fun _ : κ => Nat := xs.foldl (add key val w) ∅

/-- The sum of the values of the items with key `k`. -/
def sumAt (k : κ) (xs : List α) : Nat := ((xs.filter fun x => key x = k).map val).sum

theorem sumAt_eq_zero {k : κ} {xs : List α} (h : ¬ xs.any (fun x => key x = k)) :
    sumAt key val k xs = 0 := by
  have hnil : xs.filter (fun x => key x = k) = [] := by
    simpa [List.filter_eq_nil_iff] using h
  simp [sumAt, hnil]

theorem lookup_add (m : AList fun _ : κ => Nat) (x : α) (k : κ) :
    (add key val w m x).lookup k =
      if key x = k then some (((m.lookup k).getD 0 + val x) % w) else m.lookup k := by
  unfold add
  by_cases hk : key x = k
  · subst hk
    rw [AList.lookup_insert, if_pos rfl]
  · rw [AList.lookup_insert_ne (Ne.symm hk), if_neg hk]

/-- A run of additions from a map that holds `v` at `k`, or nothing: the wrapped sum of what the
items of key `k` add, or the map's own entry when none has key `k`. -/
theorem lookup_foldl_add (k : κ) :
    ∀ (xs : List α) (m : AList fun _ : κ => Nat),
      (xs.foldl (add key val w) m).lookup k =
        if xs.any (fun x => key x = k) then some (((m.lookup k).getD 0 + sumAt key val k xs) % w)
        else m.lookup k
  | [], m => by simp
  | x :: xs, m => by
    rw [List.foldl_cons, lookup_foldl_add k xs, lookup_add]
    by_cases hx : key x = k
    · -- the first item adds to `k`, and the rest add on top of the wrapped sum
      have hsum : sumAt key val k (x :: xs) = val x + sumAt key val k xs := by
        simp [sumAt, hx]
      simp only [hx, if_true, Option.getD_some, List.any_cons, decide_true, Bool.true_or, hsum]
      split
      · rw [Nat.mod_add_mod, Nat.add_assoc]
      · rw [sumAt_eq_zero key val ‹_›, Nat.add_zero]
    · have hsum : sumAt key val k (x :: xs) = sumAt key val k xs := by
        simp [sumAt, hx]
      simp [hx, hsum]

/-- What a tally holds at `k`: the sum of the values of the items of key `k`, modulo `w`, if
there is one. -/
theorem lookup_tally (xs : List α) (k : κ) :
    (tally key val w xs).lookup k =
      if xs.any (fun x => key x = k) then some (sumAt key val k xs % w) else none := by
  rw [tally, lookup_foldl_add]
  simp

/-- Two maps agree when the second has every entry of the first and no more entries. -/
theorem lookup_eq_of_subset {V : Type} {s t : AList fun _ : κ => V}
    (hsub : ∀ k v, s.lookup k = some v → t.lookup k = some v)
    (hlen : t.entries.length ≤ s.entries.length) (k : κ) : t.lookup k = s.lookup k := by
  -- the keys of `s` are among those of `t`, and as many: they are the same keys
  have hkeys : s.keys ⊆ t.keys := by
    intro a ha
    obtain ⟨v, hv⟩ := Option.isSome_iff_exists.mp (AList.lookup_isSome.mpr (AList.mem_keys.mpr ha))
    exact AList.mem_keys.mp (AList.lookup_isSome.mp (by rw [hsub a v hv]; rfl))
  have hperm : s.keys.Perm t.keys :=
    (s.keys_nodup.subperm hkeys).perm_of_length_le (by simpa [AList.keys, List.keys] using hlen)
  cases hs : s.lookup k with
  | some v => exact hsub k v hs
  | none =>
    rw [AList.lookup_eq_none, AList.mem_keys, ← hperm.mem_iff, ← AList.mem_keys,
      ← AList.lookup_eq_none]
    exact hs

end GoMap
