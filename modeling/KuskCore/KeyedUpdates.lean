import Mathlib

/-!
# Runs of keyed updates on association lists

An update reads the value at one key and writes a new value there, or fails; a run applies a
list of updates in order (`runUpdates`). A run only ever reads and writes at the update's own
key, so what it does at one key is the run of that key's updates on that key's value alone
(`runUpdates_lookup`): a key that no update names keeps its value, and the others can be
followed one at a time (`runAt`).

A batch of writes taken from the entries of another association list (`putEntries`) writes
every key once, since the keys are distinct (`lookup_putEntries`).
-/

namespace KeyedUpdates

variable {κ V ε : Type} [DecidableEq κ]

/-- Write a value, or erase the key. -/
def put (k : κ) : Option V → (AList fun _ : κ => V) → AList fun _ : κ => V
  | some v, m => m.insert k v
  | none, m => m.erase k

theorem lookup_put (k k' : κ) (v : Option V) (m : AList fun _ : κ => V) :
    (put k v m).lookup k' = if k' = k then v else m.lookup k' := by
  cases v with
  | none =>
    by_cases h : k' = k
    · subst h
      simp [put, AList.lookup_erase]
    · simp [put, h, AList.lookup_erase_ne h]
  | some v =>
    by_cases h : k' = k
    · subst h
      simp [put, AList.lookup_insert]
    · simp [put, h, AList.lookup_insert_ne h]

/-- An update at one key: read the value there, write back what `f` makes of it. -/
def update (k : κ) (f : Option V → Except ε (Option V)) (m : AList fun _ : κ => V) :
    Except ε (AList fun _ : κ => V) :=
  (f (m.lookup k)).map fun v => put k v m

/-- A run of updates, in order. -/
def runUpdates (us : List (κ × (Option V → Except ε (Option V))))
    (m : AList fun _ : κ => V) : Except ε (AList fun _ : κ => V) :=
  us.foldlM (fun m u => update u.1 u.2 m) m

/-- A run of updates on one value. -/
def runAt : List (Option V → Except ε (Option V)) → Option V → Except ε (Option V)
  | [], v => .ok v
  | f :: fs, v => (f v).bind (runAt fs)

/-- The updates a run makes at one key. -/
def updatesAt (k : κ) (us : List (κ × (Option V → Except ε (Option V)))) :
    List (Option V → Except ε (Option V)) :=
  (us.filter fun u => u.1 = k).map (·.2)

@[simp] theorem runUpdates_nil (m : AList fun _ : κ => V) :
    runUpdates ([] : List (κ × (Option V → Except ε (Option V)))) m = .ok m := rfl

theorem runUpdates_cons (k : κ) (f : Option V → Except ε (Option V))
    (us : List (κ × (Option V → Except ε (Option V)))) (m : AList fun _ : κ => V) :
    runUpdates ((k, f) :: us) m = (update k f m).bind (runUpdates us) := rfl

theorem runUpdates_append (us vs : List (κ × (Option V → Except ε (Option V))))
    (m : AList fun _ : κ => V) :
    runUpdates (us ++ vs) m = (runUpdates us m).bind (runUpdates vs) := by
  unfold runUpdates
  rw [List.foldlM_append]
  rfl

@[simp] theorem runAt_nil (v : Option V) : runAt ([] : List (Option V → Except ε (Option V))) v = .ok v :=
  rfl

theorem runAt_cons (f : Option V → Except ε (Option V)) (fs : List (Option V → Except ε (Option V)))
    (v : Option V) : runAt (f :: fs) v = (f v).bind (runAt fs) := rfl

theorem runAt_singleton (f : Option V → Except ε (Option V)) (v : Option V) : runAt [f] v = f v := by
  rw [runAt_cons]
  cases f v <;> rfl

theorem runAt_append (fs gs : List (Option V → Except ε (Option V))) (v : Option V) :
    runAt (fs ++ gs) v = (runAt fs v).bind (runAt gs) := by
  induction fs generalizing v with
  | nil => rfl
  | cons f fs ih =>
    rw [List.cons_append, runAt_cons, runAt_cons]
    cases f v with
    | error e => rfl
    | ok w => exact ih w

/-- A run that ends with a write leaves what it writes. -/
theorem runAt_append_write {fs : List (Option V → Except ε (Option V))} {v w c : Option V}
    (h : runAt (fs ++ [fun _ => .ok c]) v = .ok w) : w = c := by
  rw [runAt_append] at h
  cases hr : runAt fs v with
  | error e =>
    rw [hr] at h
    cases h
  | ok u =>
    rw [hr] at h
    cases h
    rfl

theorem updatesAt_append (k : κ) (us vs : List (κ × (Option V → Except ε (Option V)))) :
    updatesAt k (us ++ vs) = updatesAt k us ++ updatesAt k vs := by
  simp [updatesAt]

theorem updatesAt_cons_self (k : κ) (f : Option V → Except ε (Option V))
    (us : List (κ × (Option V → Except ε (Option V)))) :
    updatesAt k ((k, f) :: us) = f :: updatesAt k us := by
  simp [updatesAt]

theorem updatesAt_cons_ne {k k' : κ} (h : k' ≠ k) (f : Option V → Except ε (Option V))
    (us : List (κ × (Option V → Except ε (Option V)))) :
    updatesAt k ((k', f) :: us) = updatesAt k us := by
  simp [updatesAt, h]

/-- A loop whose body is a run of updates is the run of all the bodies' updates. -/
theorem foldlM_runUpdates {α : Type} (f : α → List (κ × (Option V → Except ε (Option V)))) :
    ∀ (xs : List α) (m : AList fun _ : κ => V),
      xs.foldlM (fun m x => runUpdates (f x) m) m = runUpdates (xs.flatMap f) m
  | [], _ => rfl
  | x :: xs, m => by
    rw [List.foldlM_cons, List.flatMap_cons, runUpdates_append]
    cases runUpdates (f x) m with
    | error e => rfl
    | ok m' => exact foldlM_runUpdates f xs m'

theorem updatesAt_flatMap {α : Type} (k : κ) (f : α → List (κ × (Option V → Except ε (Option V))))
    (xs : List α) : updatesAt k (xs.flatMap f) = xs.flatMap fun x => updatesAt k (f x) := by
  induction xs with
  | nil => rfl
  | cons x xs ih => rw [List.flatMap_cons, List.flatMap_cons, updatesAt_append, ih]

/-- Updates of a list of keys, each by a function of its key: at `k`, one update per
occurrence. -/
theorem updatesAt_map_keys (k : κ) (g : κ → Option V → Except ε (Option V)) :
    ∀ ks : List κ, updatesAt k (ks.map fun k' => (k', g k')) = List.replicate (ks.count k) (g k)
  | [] => rfl
  | k' :: ks => by
    rw [List.map_cons, List.count_cons]
    by_cases h : k' = k
    · subst h
      rw [updatesAt_cons_self, updatesAt_map_keys k' g ks]
      simp [List.replicate_succ]
    · rw [updatesAt_cons_ne h, updatesAt_map_keys k g ks]
      simp [h]

/-- A key that no update names has no updates. -/
theorem updatesAt_eq_nil {k : κ} {us : List (κ × (Option V → Except ε (Option V)))}
    (h : k ∉ us.map (·.1)) : updatesAt k us = [] := by
  simp only [updatesAt, List.map_eq_nil_iff, List.filter_eq_nil_iff, decide_eq_true_eq]
  intro u hu he
  exact h (he ▸ List.mem_map_of_mem hu)

/-- Writes of entries with distinct keys: at the key of one entry, exactly its write. -/
theorem updatesAt_map_of_nodup {β : Type} {k : κ} {b : β}
    (g : κ × β → Option V → Except ε (Option V)) :
    ∀ {cs : List (κ × β)}, (cs.map Prod.fst).Nodup → (k, b) ∈ cs →
      updatesAt k (cs.map fun c => (c.1, g c)) = [g (k, b)]
  | [], _, hc => absurd hc List.not_mem_nil
  | c :: cs, hnd, hc => by
    rw [List.map_cons, List.nodup_cons] at hnd
    rw [List.map_cons]
    rcases List.mem_cons.mp hc with rfl | hc
    · -- the entry itself, and no later entry with its key
      rw [updatesAt_cons_self, updatesAt_eq_nil (by simpa using hnd.1)]
    · have hne : c.1 ≠ k := fun he => hnd.1 (he ▸ List.mem_map_of_mem (f := Prod.fst) hc)
      rw [updatesAt_cons_ne hne, updatesAt_map_of_nodup g hnd.2 hc]

/-- A successful run does at each key what that key's own updates do to its value. -/
theorem runUpdates_lookup :
    ∀ (us : List (κ × (Option V → Except ε (Option V)))) (m m' : AList fun _ : κ => V),
      runUpdates us m = .ok m' → ∀ k, runAt (updatesAt k us) (m.lookup k) = .ok (m'.lookup k)
  | [], m, m', h, k => by
    cases h
    rfl
  | (k₀, f) :: us, m, m', h, k => by
    rw [runUpdates_cons] at h
    cases hf : f (m.lookup k₀) with
    | error e =>
      rw [update, hf] at h
      cases h
    | ok v =>
      -- the first update writes `v` at `k₀` and nothing elsewhere
      rw [update, hf] at h
      have ih := runUpdates_lookup us (put k₀ v m) m' h k
      rw [lookup_put] at ih
      by_cases hk : k = k₀
      · subst hk
        rw [updatesAt_cons_self, runAt_cons, hf]
        rw [if_pos rfl] at ih
        exact ih
      · rw [updatesAt_cons_ne (Ne.symm hk)]
        rw [if_neg hk] at ih
        exact ih

/-- A key no update names keeps its value. -/
theorem runUpdates_lookup_of_not_mem {us : List (κ × (Option V → Except ε (Option V)))}
    {m m' : AList fun _ : κ => V} (h : runUpdates us m = .ok m') {k : κ}
    (hk : updatesAt k us = []) : m'.lookup k = m.lookup k := by
  have hrun := runUpdates_lookup us m m' h k
  rw [hk, runAt_nil] at hrun
  exact (Except.ok.inj hrun).symm

/-- Write, for every entry of a list with distinct keys, what `g` makes of it. -/
def putEntries (g : κ → V → Option V) (es : List (Sigma fun _ : κ => V))
    (m : AList fun _ : κ => V) : AList fun _ : κ => V :=
  es.foldl (fun m e => put e.1 (g e.1 e.2) m) m

/-- With distinct keys each key is written once, by its own entry. -/
theorem lookup_putEntries (g : κ → V → Option V) (k : κ) :
    ∀ (es : List (Sigma fun _ : κ => V)) (m : AList fun _ : κ => V), es.NodupKeys →
      (putEntries g es m).lookup k =
        match es.dlookup k with
        | some v => g k v
        | none => m.lookup k
  | [], m, _ => rfl
  | e :: es, m, hnd => by
    have hnd' := List.nodupKeys_cons.mp hnd
    have ih := lookup_putEntries g k es (put e.1 (g e.1 e.2) m) hnd'.2
    unfold putEntries at ih ⊢
    rw [List.foldl_cons, ih]
    by_cases hk : k = e.1
    · -- a later entry never has the key of the first
      subst hk
      have hnone : es.dlookup e.1 = none := List.dlookup_eq_none.mpr hnd'.1
      rw [hnone, lookup_put, if_pos rfl, List.dlookup_cons_eq]
    · rw [List.dlookup_cons_ne _ _ hk]
      cases es.dlookup k with
      | some v => rfl
      | none => rw [lookup_put, if_neg hk]

/-! ## Runs in place

Code that writes into the map it reads keeps, when it stops with an error, the writes made before
the error. `runUpdatesInPlace` runs the updates in `EStateM`, whose errors carry the state they
stop in: it ends where `runUpdates` ends (`runUpdatesInPlace_eq_ok_iff`), and it fails at the
first update that fails, in the state the updates before it made (`runUpdatesInPlace_eq_error_iff`).
-/

/-- An update in place: on failure the map is left as it was. -/
def updateInPlace (k : κ) (f : Option V → Except ε (Option V)) :
    EStateM ε (AList fun _ : κ => V) PUnit := fun m =>
  match f (m.lookup k) with
  | .ok v => .ok ⟨⟩ (put k v m)
  | .error e => .error e m

/-- A run of updates in place. -/
def runUpdatesInPlace (us : List (κ × (Option V → Except ε (Option V)))) :
    EStateM ε (AList fun _ : κ => V) PUnit :=
  us.forM fun u => updateInPlace u.1 u.2

theorem runUpdatesInPlace_cons_of_ok {k : κ} {f : Option V → Except ε (Option V)}
    {us : List (κ × (Option V → Except ε (Option V)))} {m : AList fun _ : κ => V} {v : Option V}
    (hf : f (m.lookup k) = .ok v) :
    (runUpdatesInPlace ((k, f) :: us)).run m = (runUpdatesInPlace us).run (put k v m) := by
  show EStateM.bind (updateInPlace k f) (fun _ => runUpdatesInPlace us) m = _
  simp only [EStateM.bind, updateInPlace, hf]
  rfl

theorem runUpdatesInPlace_cons_of_error {k : κ} {f : Option V → Except ε (Option V)}
    {us : List (κ × (Option V → Except ε (Option V)))} {m : AList fun _ : κ => V} {e : ε}
    (hf : f (m.lookup k) = .error e) : (runUpdatesInPlace ((k, f) :: us)).run m = .error e m := by
  show EStateM.bind (updateInPlace k f) (fun _ => runUpdatesInPlace us) m = _
  simp only [EStateM.bind, updateInPlace, hf]

/-- A run in place that reaches its end ends where the run does. -/
theorem runUpdatesInPlace_eq_ok_iff : ∀ {us : List (κ × (Option V → Except ε (Option V)))}
    {m m' : AList fun _ : κ => V} {u : PUnit},
    (runUpdatesInPlace us).run m = .ok u m' ↔ runUpdates us m = .ok m'
  | [], m, m', u => by
    show EStateM.Result.ok ⟨⟩ m = .ok u m' ↔ Except.ok m = .ok m'
    simp
  | (k, f) :: us, m, m', u => by
    rw [runUpdates_cons, update]
    cases hf : f (m.lookup k) with
    | error e =>
      rw [runUpdatesInPlace_cons_of_error hf]
      simp [Except.map, Except.bind]
    | ok v =>
      rw [runUpdatesInPlace_cons_of_ok hf, runUpdatesInPlace_eq_ok_iff]
      rfl

/-- A run in place that fails stops at an update that fails, in the state the updates before it
made, and every such update stops it. -/
theorem runUpdatesInPlace_eq_error_iff : ∀ {us : List (κ × (Option V → Except ε (Option V)))}
    {m m' : AList fun _ : κ => V} {e : ε},
    (runUpdatesInPlace us).run m = .error e m' ↔
      ∃ pre k f rest, us = pre ++ (k, f) :: rest ∧ runUpdates pre m = .ok m' ∧
        f (m'.lookup k) = .error e
  | [], m, m', e => by
    constructor
    · intro h
      cases h
    · rintro ⟨pre, k, f, rest, hus, -⟩
      exact absurd hus.symm (by simp)
  | (k, f) :: us, m, m', e => by
    cases hf : f (m.lookup k) with
    | error e₀ =>
      -- the first update fails: nothing ran before it
      rw [runUpdatesInPlace_cons_of_error hf]
      constructor
      · intro h
        cases h
        exact ⟨[], k, f, us, rfl, rfl, hf⟩
      · rintro ⟨pre, k', f', rest, hus, hpre, hf'⟩
        cases pre with
        | nil =>
          cases hus
          cases hpre
          rw [hf] at hf'
          cases hf'
          rfl
        | cons p pre =>
          cases hus
          rw [runUpdates_cons, update, hf] at hpre
          cases hpre
    | ok v =>
      -- the first update writes, and the run goes on from there
      rw [runUpdatesInPlace_cons_of_ok hf, runUpdatesInPlace_eq_error_iff]
      constructor
      · rintro ⟨pre, k', f', rest, rfl, hpre, hf'⟩
        refine ⟨(k, f) :: pre, k', f', rest, rfl, ?_, hf'⟩
        rw [runUpdates_cons, update, hf]
        exact hpre
      · rintro ⟨pre, k', f', rest, hus, hpre, hf'⟩
        cases pre with
        | nil =>
          cases hus
          cases hpre
          rw [hf] at hf'
          cases hf'
        | cons p pre =>
          cases hus
          rw [runUpdates_cons, update, hf] at hpre
          exact ⟨pre, k', f', rest, rfl, hpre, hf'⟩

end KeyedUpdates
