import Mathlib

/-!
# Least-recently-used caches

`lru.Cache` of `github.com/golang/groupcache/lru`, as `common.Cache` wraps it under a lock, so
that each `Get` and `Add` is one step. The entries stand from the most to the least recently used,
one per key: `container/list`'s order, with the map `cache` as its keys, which an `AList` keeps
together. `Get` moves a hit to the front; `Add` moves a cached key to the front with its new
value, or puts a new entry in front and drops the least recently used one once there are more
than `MaxEntries`, which bounds nothing when zero (`length_le`).

As a map from keys to values a cache is unchanged by `Get` (`lookup_get`) and gains at most the
added entry by `Add` (`lookup_add_eq_some`), so a property of every entry holds of any cache that
these two build (`All.get_eq`, `All.add`).
-/

namespace Lru

/-- `lru.Cache`, its entries most recent first; `MaxEntries` bounds their number unless it is
zero. -/
structure Cache (κ ν : Type) where
  maxEntries : Nat
  entries : AList fun _ : κ => ν
  length_le : 0 < maxEntries → entries.entries.length ≤ maxEntries

namespace Cache

variable {κ ν : Type} [DecidableEq κ]

/-- `New`. -/
def new (maxEntries : Nat) : Cache κ ν := ⟨maxEntries, ∅, fun _ => Nat.zero_le _⟩

/-- The value the cache holds for a key: the map `cache`. -/
def lookup (c : Cache κ ν) (key : κ) : Option ν := c.entries.lookup key

theorem length_insert_of_mem {s : AList fun _ : κ => ν} {key : κ} (value : ν) (h : key ∈ s) :
    (s.insert key value).entries.length = s.entries.length := by
  have hkeys := congrArg List.length (AList.keys_insert (a := key) (b := value) s)
  have hmem : key ∈ s.keys := h
  rw [List.length_cons, List.length_erase_of_mem hmem] at hkeys
  have hpos : 0 < s.keys.length := List.length_pos_of_mem hmem
  simp only [AList.keys, List.keys, List.length_map] at hkeys hpos
  omega

/-- `RemoveOldest` on the entries: the least recently used one goes. -/
def removeOldest (s : AList fun _ : κ => ν) : AList fun _ : κ => ν :=
  ⟨s.entries.dropLast, s.nodupKeys.sublist (List.dropLast_sublist _)⟩

/-- `MoveToFront` of a cached key's element, which then holds `value`. -/
def moveToFront (c : Cache κ ν) (key : κ) (value : ν) (h : key ∈ c.entries) : Cache κ ν :=
  ⟨c.maxEntries, c.entries.insert key value, fun hmax => by
    rw [length_insert_of_mem value h]
    exact c.length_le hmax⟩

/-- `PushFront` of a key the cache does not hold, then `RemoveOldest` if there are more than
`MaxEntries` entries. -/
def pushFront (c : Cache κ ν) (key : κ) (value : ν) (h : key ∉ c.entries) : Cache κ ν :=
  let entries := c.entries.insert key value
  have hlen : entries.entries.length = c.entries.entries.length + 1 := by
    rw [AList.entries_insert_of_notMem h, List.length_cons]
  if hover : 0 < c.maxEntries ∧ c.maxEntries < entries.entries.length then
    ⟨c.maxEntries, removeOldest entries, fun hmax => by
      have hold := c.length_le hmax
      simp only [removeOldest, List.length_dropLast]
      omega⟩
  else
    ⟨c.maxEntries, entries, fun hmax => by omega⟩

/-- `Get`: the value of the key; a hit moves its entry to the front. -/
def get (c : Cache κ ν) (key : κ) : Option ν × Cache κ ν :=
  match h : c.lookup key with
  | some value =>
    (some value, c.moveToFront key value (AList.lookup_isSome.mp (by rw [lookup] at h; simp [h])))
  | none => (none, c)

/-- `Add`. -/
def add (c : Cache κ ν) (key : κ) (value : ν) : Cache κ ν :=
  match h : c.lookup key with
  | some _ => c.moveToFront key value (AList.lookup_isSome.mp (by rw [lookup] at h; simp [h]))
  | none => c.pushFront key value (AList.lookup_eq_none.mp h)

/-! ## The cache as a map -/

@[simp] theorem lookup_new (maxEntries : Nat) (key : κ) :
    (new maxEntries : Cache κ ν).lookup key = none :=
  rfl

theorem lookup_moveToFront {c : Cache κ ν} {key : κ} {value : ν} (h : key ∈ c.entries)
    (key' : κ) :
    (c.moveToFront key value h).lookup key' = if key' = key then some value else c.lookup key' := by
  unfold moveToFront lookup
  split
  · next heq => subst heq; exact AList.lookup_insert _
  · next hne => exact AList.lookup_insert_ne hne

theorem lookup_pushFront_eq_some {c : Cache κ ν} {key key' : κ} {value value' : ν}
    (h : key ∉ c.entries) (hl : (c.pushFront key value h).lookup key' = some value') :
    key' = key ∧ value' = value ∨ c.lookup key' = some value' := by
  -- the entries after `PushFront` are a sublist of `c.entries.insert key value`, eviction or not
  have hins : (c.entries.insert key value).lookup key' = some value' := by
    unfold pushFront at hl
    dsimp only at hl
    split at hl
    · exact List.sublist_dlookup (c.entries.insert key value).nodupKeys
        (List.dropLast_sublist _) hl
    · exact hl
  by_cases hk : key' = key
  · subst hk
    rw [AList.lookup_insert, Option.some.injEq] at hins
    exact .inl ⟨rfl, hins.symm⟩
  · rw [AList.lookup_insert_ne hk] at hins
    exact .inr hins

theorem get_fst (c : Cache κ ν) (key : κ) : (c.get key).1 = c.lookup key := by
  unfold get
  split <;> simp_all

/-- `Get` only reorders the entries. -/
theorem lookup_get (c : Cache κ ν) (key key' : κ) :
    (c.get key).2.lookup key' = c.lookup key' := by
  unfold get
  split
  · next value h =>
    rw [lookup_moveToFront]
    split
    · next heq => rw [heq, h]
    · rfl
  · rfl

theorem lookup_add_eq_some {c : Cache κ ν} {key key' : κ} {value value' : ν}
    (h : (c.add key value).lookup key' = some value') :
    key' = key ∧ value' = value ∨ c.lookup key' = some value' := by
  unfold add at h
  split at h
  · rw [lookup_moveToFront] at h
    split at h
    · next heq => exact .inl ⟨heq, (Option.some.inj h).symm⟩
    · exact .inr h
  · exact lookup_pushFront_eq_some _ h

/-! ## Properties of every entry -/

/-- Every entry `key ↦ value` of the cache has `P key value`. -/
def All (P : κ → ν → Prop) (c : Cache κ ν) : Prop :=
  ∀ key value, c.lookup key = some value → P key value

variable {P : κ → ν → Prop}

theorem all_new (maxEntries : Nat) : All P (new maxEntries) := by
  intro key value h
  simp at h

/-- A hit of `Get` has the property, and so has every entry after it. -/
theorem All.get_eq {c c' : Cache κ ν} {key : κ} {r : Option ν} (hc : All P c)
    (h : c.get key = (r, c')) : (∀ value, r = some value → P key value) ∧ All P c' := by
  constructor
  · intro value hr
    apply hc key value
    rw [← get_fst, h, hr]
  · intro key' value' hl
    apply hc key' value'
    rw [← lookup_get c key key', h]
    exact hl

theorem All.add {c : Cache κ ν} {key : κ} {value : ν} (hc : All P c) (hkv : P key value) :
    All P (c.add key value) := by
  intro key' value' hl
  rcases lookup_add_eq_some hl with ⟨rfl, rfl⟩ | hl
  · exact hkv
  · exact hc key' value' hl

end Cache

end Lru
