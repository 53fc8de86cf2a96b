import Mathlib

/-!
# A pool of workers between two buffered channels

The fan-out and fan-in of a bounded Go worker pool. A main routine sends `n` indexed works into a
buffered channel and closes it; each of `m` workers takes a work from the channel, computes a pure
function `f i x` of it and sends the indexed result into a second buffered channel; the main
routine then receives `n` results and stores each in the slot of its index. Both channels buffer
`n` items, so no send blocks, and an idle worker is also one whose `range` over the closed, empty
channel has ended.

`step` is one step of one routine and `run` a schedule of them, in any interleaving. `Inv` says
that each index is in exactly one place (not sent yet, in the work channel, held by a worker, in
the result channel, or in its slot) and that each work and result is the one of its index.

* `Inv.step`, `Inv.run`: every step keeps the invariant, which holds of `init` (`inv_init`).
* `Inv.stored_eq`: once the main routine has received `n` results, slot `i` holds `(i, f i xs[i])`.
* `Inv.exists_step`: with at least one worker, a pool that has not received them all can move.
* `run_potential`: every step lowers `potential` by one, and `potential (init m) = 4 n`, so no
  schedule has more than `4 n` steps; `Inv.exists_run`: every schedule can be carried on until
  every result is received.
-/

namespace WorkerPool

/-- The main routine's count of works sent, the work channel (oldest first), what each worker
holds, the result channel, the main routine's count of results received, and the result slots. -/
structure Pool (α β : Type) where
  sent : Nat
  works : List (Nat × α)
  held : List (Option (Nat × α))
  results : List (Nat × β)
  received : Nat
  stored : List (Option (Nat × β))

/-- The routine that moves: the main routine sending or receiving, or worker `k`. -/
inductive Action where
  | send
  | take (k : Nat)
  | finish (k : Nat)
  | receive
  deriving DecidableEq, Repr

/-- Replacing one item of a list changes what `filterMap` keeps by that item alone. -/
theorem filterMap_set_add {γ δ : Type} (g : γ → Option δ) :
    ∀ {l : List γ} {k : Nat} {x : γ}, l[k]? = some x → ∀ y : γ,
      ((l.set k y).filterMap g : Multiset δ) + ((g x).toList : Multiset δ) =
        (l.filterMap g : Multiset δ) + ((g y).toList : Multiset δ)
  | [], _, _, hk, _ => by simp at hk
  | a :: l, 0, x, hk, y => by
    rw [List.getElem?_cons_zero, Option.some.injEq] at hk
    subst hk
    cases hx : g a <;> cases hy : g y <;>
      simp [hx, hy, ← Multiset.cons_coe, ← Multiset.singleton_add, add_comm, add_assoc,
        add_left_comm]
  | a :: l, k + 1, x, hk, y => by
    rw [List.getElem?_cons_succ] at hk
    have ih := filterMap_set_add g hk y
    cases ha : g a <;>
      simp [ha, ← Multiset.cons_coe, ← Multiset.singleton_add, add_assoc, ih]

/-- The same for the number of items kept. -/
theorem length_filterMap_set {γ δ : Type} (g : γ → Option δ) {l : List γ} {k : Nat} {x : γ}
    (hk : l[k]? = some x) (y : γ) :
    ((l.set k y).filterMap g).length + (g x).toList.length =
      (l.filterMap g).length + (g y).toList.length := by
  have h := congrArg Multiset.card (filterMap_set_add g hk y)
  simpa only [Multiset.card_add, Multiset.coe_card] using h

/-- The number of `some` in a list after one item is replaced. -/
theorem length_filterMap_id_set {γ : Type} {l : List (Option γ)} {k : Nat} {x : Option γ}
    (hk : l[k]? = some x) (y : Option γ) :
    ((l.set k y).filterMap id).length + x.toList.length =
      (l.filterMap id).length + y.toList.length :=
  length_filterMap_set id hk y

section Step

variable {α β : Type} (xs : List α) (f : Nat → α → β)

/-- The pool before any routine has run: `m` idle workers and a slot for each work. -/
def init (m : Nat) : Pool α β :=
  ⟨0, [], List.replicate m none, [], 0, List.replicate xs.length none⟩

/-- One step of the routine `a`, or `none` when it cannot move. -/
def step (s : Pool α β) : Action → Option (Pool α β)
  | .send =>
    if h : s.sent < xs.length then
      some { s with sent := s.sent + 1, works := s.works ++ [(s.sent, xs[s.sent])] }
    else none
  | .take k =>
    match s.held[k]?, s.works with
    | some none, w :: rest => some { s with held := s.held.set k (some w), works := rest }
    | _, _ => none
  | .finish k =>
    match s.held[k]? with
    | some (some (i, x)) =>
      some { s with held := s.held.set k none, results := s.results ++ [(i, f i x)] }
    | _ => none
  | .receive =>
    -- the main routine receives only once its loop has sent every work
    if s.sent = xs.length ∧ s.received < xs.length then
      match s.results with
      | (i, y) :: rest =>
        some
          { s with
            results := rest, received := s.received + 1, stored := s.stored.set i (some (i, y)) }
      | [] => none
    else none

/-- The pool after the steps `as`, one after another, or `none` if one of them cannot move. -/
def run (s : Pool α β) : List Action → Option (Pool α β)
  | [] => some s
  | a :: as => (step xs f s a).bind fun s' => run s' as

/-- What one step does, with the guard it passed. -/
theorem step_eq_some {s s' : Pool α β} {a : Action} (h : step xs f s a = some s') :
    (∃ hs : s.sent < xs.length,
      s' = { s with sent := s.sent + 1, works := s.works ++ [(s.sent, xs[s.sent])] }) ∨
    (∃ k w rest, s.held[k]? = some none ∧ s.works = w :: rest ∧
      s' = { s with held := s.held.set k (some w), works := rest }) ∨
    (∃ k i x, s.held[k]? = some (some (i, x)) ∧
      s' = { s with held := s.held.set k none, results := s.results ++ [(i, f i x)] }) ∨
    (∃ i y rest, s.sent = xs.length ∧ s.received < xs.length ∧ s.results = (i, y) :: rest ∧
      s' = { s with
        results := rest, received := s.received + 1, stored := s.stored.set i (some (i, y)) }) := by
  cases a with
  | send =>
    simp only [step] at h
    split at h
    · exact .inl ⟨‹_›, (Option.some.inj h).symm⟩
    · cases h
  | take k =>
    simp only [step] at h
    split at h
    · rename_i w rest hk hw
      exact .inr (.inl ⟨k, w, rest, hk, hw, (Option.some.inj h).symm⟩)
    · cases h
  | finish k =>
    simp only [step] at h
    split at h
    · rename_i i x hk
      exact .inr (.inr (.inl ⟨k, i, x, hk, (Option.some.inj h).symm⟩))
    · cases h
  | receive =>
    simp only [step] at h
    split at h
    · rename_i hg
      split at h
      · rename_i i y rest hr
        exact .inr (.inr (.inr ⟨i, y, rest, hg.1, hg.2, hr, (Option.some.inj h).symm⟩))
      · cases h
    · cases h

/-! ## Where every index is -/

/-- The indices of the works the main routine has not sent yet. -/
def unsent (s : Pool α β) : List Nat := List.range' s.sent (xs.length - s.sent)

/-- Every index in the pool, wherever it is. -/
def located (s : Pool α β) : Multiset Nat :=
  (unsent xs s : Multiset Nat) + (s.works.map Prod.fst : Multiset Nat) +
    (s.held.filterMap (Option.map Prod.fst) : Multiset Nat) +
    (s.results.map Prod.fst : Multiset Nat) + (s.stored.filterMap (Option.map Prod.fst) : Multiset Nat)

/-- Each index in exactly one place, each work and result the one of its index, a slot only for
its own index, and the main routine's counts. -/
structure Inv (m : Nat) (s : Pool α β) : Prop where
  located_eq : located xs s = Multiset.range xs.length
  works_get : ∀ p ∈ s.works, xs[p.1]? = some p.2
  held_get : ∀ p, some p ∈ s.held → xs[p.1]? = some p.2
  results_get : ∀ p ∈ s.results, (xs[p.1]?).map (f p.1) = some p.2
  stored_get : ∀ j p, s.stored[j]? = some (some p) → p.1 = j ∧ (xs[j]?).map (f j) = some p.2
  length_held : s.held.length = m
  length_stored : s.stored.length = xs.length
  received_eq : s.received = (s.stored.filterMap (Option.map Prod.fst)).length
  sent_le : s.sent ≤ xs.length

theorem inv_init (m : Nat) : Inv xs f m (init xs m) where
  located_eq := by simp [located, unsent, init, List.range_eq_range', Multiset.range]
  works_get := by simp [init]
  held_get := by simp [init]
  results_get := by simp [init]
  stored_get := by simp [init, List.getElem?_replicate]
  length_held := List.length_replicate
  length_stored := List.length_replicate
  received_eq := by simp [init]
  sent_le := Nat.zero_le _

/-! ## What each step does to the indices -/

variable {xs} in
theorem located_send {s : Pool α β} (hs : s.sent < xs.length) (v : α) :
    located xs { s with sent := s.sent + 1, works := s.works ++ [(s.sent, v)] } = located xs s := by
  have hunsent : unsent xs s = s.sent :: List.range' (s.sent + 1) (xs.length - (s.sent + 1)) := by
    rw [unsent, show xs.length - s.sent = xs.length - (s.sent + 1) + 1 by omega, List.range'_succ]
  rw [located, located, hunsent, unsent]
  simp only [List.map_append, List.map_cons, List.map_nil, ← Multiset.coe_add, ← Multiset.cons_coe,
    Multiset.coe_nil, ← Multiset.singleton_add, add_zero]
  abel

theorem located_take {s : Pool α β} {k : Nat} {w : Nat × α} {rest : List (Nat × α)}
    (hk : s.held[k]? = some none) (hw : s.works = w :: rest) :
    located xs { s with held := s.held.set k (some w), works := rest } = located xs s := by
  have hheld := filterMap_set_add (Option.map Prod.fst) hk (some w)
  simp only [Option.map_none, Option.toList_none, Multiset.coe_nil, add_zero,
    Option.map_some, Option.toList_some] at hheld
  rw [located, located, hw, unsent, unsent, hheld]
  simp only [List.map_cons, ← Multiset.cons_coe, ← Multiset.singleton_add]
  abel

theorem located_finish {s : Pool α β} {k i : Nat} {x : α} (hk : s.held[k]? = some (some (i, x)))
    (y : β) :
    located xs { s with held := s.held.set k none, results := s.results ++ [(i, y)] } =
      located xs s := by
  have hheld := filterMap_set_add (Option.map Prod.fst) hk none
  simp only [Option.map_none, Option.toList_none, Multiset.coe_nil, add_zero,
    Option.map_some, Option.toList_some] at hheld
  rw [located, located, unsent, unsent, ← hheld]
  simp only [List.map_append, List.map_cons, List.map_nil, ← Multiset.coe_add,
    Multiset.coe_singleton]
  abel

theorem located_receive {s : Pool α β} {i : Nat} {y : β} {rest : List (Nat × β)}
    (hr : s.results = (i, y) :: rest) (hnone : s.stored[i]? = some none) :
    located xs
        { s with
          results := rest, received := s.received + 1, stored := s.stored.set i (some (i, y)) } =
      located xs s := by
  have hstored := filterMap_set_add (Option.map Prod.fst) hnone (some (i, y))
  simp only [Option.map_none, Option.toList_none, Multiset.coe_nil, add_zero,
    Option.map_some, Option.toList_some] at hstored
  rw [located, located, hr, unsent, unsent, hstored]
  simp only [List.map_cons, ← Multiset.cons_coe, ← Multiset.singleton_add]
  abel

variable {xs f} {m : Nat}

/-- An index in the pool is the index of a work. -/
theorem Inv.lt_of_mem {s : Pool α β} (hI : Inv xs f m s) {i : Nat} (hi : i ∈ located xs s) :
    i < xs.length := by
  rw [hI.located_eq] at hi
  exact Multiset.mem_range.mp hi

/-- A result in the result channel has no slot yet: its index is in one place only. -/
theorem Inv.stored_none {s : Pool α β} (hI : Inv xs f m s) {i : Nat} {y : β}
    {rest : List (Nat × β)} (hr : s.results = (i, y) :: rest) : s.stored[i]? = some none := by
  have hnd : (located xs s).Nodup := hI.located_eq ▸ Multiset.nodup_range _
  have hi : i ∈ located xs s := by simp [located, hr]
  obtain ⟨o, ho⟩ : ∃ o, s.stored[i]? = some o :=
    Option.isSome_iff_exists.mp (by simp [hI.length_stored, hI.lt_of_mem hi])
  cases o with
  | none => exact ho
  | some p =>
    -- a filled slot `i` would put `i` in the pool a second time
    obtain ⟨hp, -⟩ := hI.stored_get i p ho
    have hmem : i ∈ (s.stored.filterMap (Option.map Prod.fst) : Multiset Nat) :=
      Multiset.mem_coe.mpr (List.mem_filterMap.mpr ⟨some p, List.mem_of_getElem? ho, by simp [hp]⟩)
    have hres : i ∈ (s.results.map Prod.fst : Multiset Nat) := by simp [hr]
    rw [located, Multiset.nodup_add] at hnd
    exact absurd hmem (Multiset.disjoint_left.mp hnd.2.2 (Multiset.mem_add.mpr (.inr hres)))

/-- The main routine never counts more results than there are works. -/
theorem Inv.received_le {s : Pool α β} (hI : Inv xs f m s) : s.received ≤ xs.length := by
  rw [hI.received_eq, ← hI.length_stored]
  exact List.length_filterMap_le _ _

/-- A step keeps the invariant. -/
theorem Inv.step {s s' : Pool α β} {a : Action} (hI : Inv xs f m s) (h : step xs f s a = some s') :
    Inv xs f m s' := by
  rcases step_eq_some xs f h with ⟨hs, rfl⟩ | ⟨k, w, rest, hk, hw, rfl⟩ |
    ⟨k, i, x, hk, rfl⟩ | ⟨i, y, rest, hsent, hrec, hr, rfl⟩
  · -- send: the first unsent index goes to the back of the work channel
    refine
      { hI with
        located_eq := (located_send hs _).trans hI.located_eq, works_get := ?_, sent_le := hs }
    intro p hp
    rcases List.mem_append.mp hp with hp | hp
    · exact hI.works_get p hp
    · rw [List.mem_singleton.mp hp]
      exact List.getElem?_eq_getElem hs
  · -- take: worker `k` holds the work at the head of the channel
    refine
      { hI with
        located_eq := (located_take xs hk hw).trans hI.located_eq, works_get := ?_,
        held_get := ?_, length_held := by rw [List.length_set, hI.length_held] }
    · intro p hp
      exact hI.works_get p (hw ▸ List.mem_cons_of_mem w hp)
    · intro p hp
      rcases List.mem_or_eq_of_mem_set hp with hp | hp
      · exact hI.held_get p hp
      · rw [Option.some.inj hp]
        exact hI.works_get w (hw ▸ List.mem_cons_self)
  · -- finish: worker `k` sends the result of its work and is idle again
    have hx : xs[i]? = some x := hI.held_get (i, x) (List.mem_of_getElem? hk)
    refine
      { hI with
        located_eq := (located_finish xs hk _).trans hI.located_eq, held_get := ?_,
        results_get := ?_, length_held := by rw [List.length_set, hI.length_held] }
    · intro p hp
      rcases List.mem_or_eq_of_mem_set hp with hp | hp
      · exact hI.held_get p hp
      · cases hp
    · intro p hp
      rcases List.mem_append.mp hp with hp | hp
      · exact hI.results_get p hp
      · rw [List.mem_singleton.mp hp, hx]
        rfl
  · -- receive: the result at the head of the channel goes to its own, empty slot
    have hnone := hI.stored_none hr
    have hlen := length_filterMap_set (Option.map Prod.fst) hnone (some (i, y))
    simp only [Option.map_none, Option.toList_none, List.length_nil, add_zero, Option.map_some,
      Option.toList_some, List.length_singleton] at hlen
    have hy : (xs[i]?).map (f i) = some y := hI.results_get (i, y) (by simp [hr])
    refine
      { hI with
        located_eq := (located_receive xs hr hnone).trans hI.located_eq, results_get := ?_,
        stored_get := ?_, length_stored := by rw [List.length_set, hI.length_stored],
        received_eq := by rw [hlen, hI.received_eq] }
    · intro p hp
      exact hI.results_get p (hr ▸ List.mem_cons_of_mem _ hp)
    · intro j p hp
      by_cases hj : j = i
      · subst hj
        rw [List.getElem?_set_self (List.getElem?_eq_some_iff.mp hnone).1] at hp
        cases hp
        exact ⟨rfl, hy⟩
      · rw [List.getElem?_set_ne (Ne.symm hj)] at hp
        exact hI.stored_get j p hp

/-- A schedule keeps the invariant. -/
theorem Inv.run {s s' : Pool α β} (hI : Inv xs f m s) :
    ∀ {as : List Action}, run xs f s as = some s' → Inv xs f m s'
  | [], h => by cases h; exact hI
  | a :: as, h => by
    simp only [WorkerPool.run, Option.bind_eq_some_iff] at h
    obtain ⟨s₁, h₁, h₂⟩ := h
    exact (hI.step h₁).run h₂

/-- Once the main routine has received a result for every work, slot `i` holds `(i, f i xs[i])`. -/
theorem Inv.stored_eq {s : Pool α β} (hI : Inv xs f m s) (hr : s.received = xs.length) :
    s.stored = xs.mapIdx fun i x => some (i, f i x) := by
  -- as many slots are filled as there are slots
  have hall : ∀ o ∈ s.stored, (o.map Prod.fst).isSome := by
    rw [← List.filterMap_length_eq_length, ← hI.received_eq, hr, hI.length_stored]
  apply List.ext_getElem?
  intro j
  rw [List.getElem?_mapIdx]
  cases hj : s.stored[j]? with
  | none =>
    have : xs.length ≤ j := hI.length_stored ▸ List.getElem?_eq_none_iff.mp hj
    rw [List.getElem?_eq_none this]
    rfl
  | some o =>
    obtain ⟨⟨i, y⟩, rfl⟩ : ∃ p, o = some p :=
      Option.isSome_iff_exists.mp (by simpa using hall o (List.mem_of_getElem? hj))
    obtain ⟨rfl, hy⟩ := hI.stored_get j (i, y) hj
    cases hx : xs[i]? with
    | none => rw [hx] at hy; cases hy
    | some x =>
      rw [hx, Option.map_some, Option.some.injEq] at hy
      rw [Option.map_some, hy]

/-- With at least one worker, a pool that has not received every result can move. -/
theorem Inv.exists_step {s : Pool α β} (hI : Inv xs f m s) (hm : 0 < m)
    (hr : s.received < xs.length) : ∃ a s', WorkerPool.step xs f s a = some s' := by
  by_cases hs : s.sent < xs.length
  · exact ⟨.send, _, by rw [WorkerPool.step, dif_pos hs]⟩
  have hsent : s.sent = xs.length := by have := hI.sent_le; omega
  -- the main routine receives if a result waits
  cases hres : s.results with
  | cons p rest => exact ⟨.receive, _, by rw [WorkerPool.step, if_pos ⟨hsent, hr⟩, hres]⟩
  | nil =>
  -- a busy worker finishes
  by_cases hbusy : ∃ (k : Nat) (p : Nat × α), s.held[k]? = some (some p)
  · obtain ⟨k, ⟨i, x⟩, hk⟩ := hbusy
    exact ⟨.finish k, _, by rw [WorkerPool.step, hk]⟩
  -- otherwise every worker is idle, and a work waits: worker 0 takes it
  have hidle : s.held.filterMap (Option.map Prod.fst) = [] := by
    rw [List.filterMap_eq_nil_iff]
    intro o ho
    cases o with
    | none => rfl
    | some p =>
      obtain ⟨k, hk⟩ := List.getElem?_of_mem ho
      exact absurd ⟨k, p, hk⟩ hbusy
  cases hw : s.works with
  | cons w rest =>
    have h0 : s.held[0]? = some none := by
      obtain ⟨o, ho⟩ : ∃ o, s.held[0]? = some o :=
        Option.isSome_iff_exists.mp (by simp [hI.length_held, hm])
      cases o with
      | none => exact ho
      | some p => exact absurd ⟨0, p, ho⟩ hbusy
    exact ⟨.take 0, _, by rw [WorkerPool.step, h0, hw]⟩
  | nil =>
    -- nothing is anywhere but in the slots, so all results were received
    have hcard := congrArg Multiset.card hI.located_eq
    simp only [located, unsent, hsent, Nat.sub_self, List.range'_zero, hw, hidle, hres,
      List.map_nil, Multiset.coe_nil, zero_add, Multiset.coe_card, Multiset.card_range] at hcard
    rw [hI.received_eq, hcard] at hr
    exact absurd hr (Nat.lt_irrefl _)

/-! ## Every schedule ends -/

variable (xs) in
/-- Four units for each work not sent, three for each in the channel, two for each held, one for
each result waiting: each step moves one work one place on. -/
def potential (s : Pool α β) : Nat :=
  4 * (xs.length - s.sent) + 3 * s.works.length + 2 * (s.held.filterMap id).length +
    s.results.length

variable (xs) in
theorem potential_init (m : Nat) : potential xs (init xs m : Pool α β) = 4 * xs.length := by
  simp [potential, init]

/-- Every step lowers the potential by one. -/
theorem potential_step {s s' : Pool α β} {a : Action} (h : step xs f s a = some s') :
    potential xs s' + 1 = potential xs s := by
  rcases step_eq_some xs f h with ⟨hs, rfl⟩ | ⟨k, w, rest, hk, hw, rfl⟩ |
    ⟨k, i, x, hk, rfl⟩ | ⟨i, y, rest, -, -, hr, rfl⟩
  · simp only [potential, List.length_append, List.length_singleton]
    omega
  · have := length_filterMap_id_set hk (some w)
    simp only [Option.toList_none, Option.toList_some, List.length_nil, List.length_singleton] at this
    simp only [potential, hw, List.length_cons]
    omega
  · have := length_filterMap_id_set hk none
    simp only [Option.toList_none, Option.toList_some, List.length_nil, List.length_singleton] at this
    simp only [potential, List.length_append, List.length_singleton]
    omega
  · simp only [potential, hr, List.length_cons]
    omega

/-- A schedule lowers the potential by its length, so none is longer than the potential. -/
theorem run_potential {s s' : Pool α β} :
    ∀ {as : List Action}, run xs f s as = some s' → potential xs s' + as.length = potential xs s
  | [], h => by cases h; rfl
  | a :: as, h => by
    simp only [WorkerPool.run, Option.bind_eq_some_iff] at h
    obtain ⟨s₁, h₁, h₂⟩ := h
    rw [List.length_cons, ← potential_step h₁, ← run_potential h₂]
    omega

/-- Every schedule can be carried on until the main routine has received every result: each step
lowers the potential, and a pool that has not received them all can move. -/
theorem Inv.exists_run {s : Pool α β} (hI : Inv xs f m s) (hm : 0 < xs.length → 0 < m) :
    ∃ as s', WorkerPool.run xs f s as = some s' ∧ s'.received = xs.length := by
  induction hp : potential xs s using Nat.strong_induction_on generalizing s with
  | _ p ih =>
  by_cases hr : s.received < xs.length
  · obtain ⟨a, s₁, h₁⟩ := hI.exists_step (hm (by omega)) hr
    have hlt : potential xs s₁ < p := by
      have := potential_step h₁
      omega
    obtain ⟨as, s', h₂, hdone⟩ := ih _ hlt (hI.step h₁) rfl
    exact ⟨a :: as, s', by simp only [WorkerPool.run, h₁, Option.bind_some, h₂], hdone⟩
  · exact ⟨[], s, rfl, by have := hI.received_le; omega⟩

end Step

end WorkerPool
