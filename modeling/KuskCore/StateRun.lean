import Mathlib
/-!
# Successful runs of state-and-error programs

A program in `EStateM ε σ` models imperative code that mutates a record and may return early with
an error that keeps the mutations made so far. Most facts about such code are about the runs that
reach the end: `x.run s = .ok a s'`. These lemmas take such an equation apart along the program's
structure (bind, branches, loops over lists) into the equations of its pieces, so that a proof about
a composite program cites the specification of each piece and never unfolds it.
-/

namespace EStateM

variable {ε σ α β : Type}

theorem run_bind_eq_ok {x : EStateM ε σ α} {f : α → EStateM ε σ β} {s s'' : σ} {b : β} :
    (x >>= f).run s = .ok b s'' ↔ ∃ a s', x.run s = .ok a s' ∧ (f a).run s' = .ok b s'' := by
  rw [run_bind]
  cases h : x.run s with
  | ok a s' => simp [and_assoc]
  | error e s' => simp

theorem run_bind_of_ok {x : EStateM ε σ α} {f : α → EStateM ε σ β} {s s' : σ} {a : α}
    (h : x.run s = .ok a s') : (x >>= f).run s = (f a).run s' := by
  rw [run_bind, h]

/-- An error stops a program where it happens, in the state it leaves. -/
theorem run_bind_of_error {x : EStateM ε σ α} {f : α → EStateM ε σ β} {s s' : σ} {e : ε}
    (h : x.run s = .error e s') : (x >>= f).run s = .error e s' := by
  rw [run_bind, h]

/-- A program stops with an error in its first part, or in its second after the first ran. -/
theorem run_bind_eq_error {x : EStateM ε σ α} {f : α → EStateM ε σ β} {s s'' : σ} {e : ε} :
    (x >>= f).run s = .error e s'' ↔
      x.run s = .error e s'' ∨ ∃ a s', x.run s = .ok a s' ∧ (f a).run s' = .error e s'' := by
  rw [run_bind]
  cases h : x.run s with
  | ok a s' => simp [and_assoc]
  | error e' s' => simp

theorem run_seqRight_eq_ok {x : EStateM ε σ α} {y : EStateM ε σ β} {s s'' : σ} {b : β} :
    (x *> y).run s = .ok b s'' ↔ ∃ a s', x.run s = .ok a s' ∧ y.run s' = .ok b s'' := by
  rw [seqRight_eq_bind, run_bind_eq_ok]

theorem run_map_eq_ok {x : EStateM ε σ α} {f : α → β} {s s' : σ} {b : β} :
    (f <$> x).run s = .ok b s' ↔ ∃ a, x.run s = .ok a s' ∧ f a = b := by
  rw [map_eq_pure_bind, run_bind_eq_ok]
  constructor
  · rintro ⟨a, t, hx, hf⟩
    cases hf
    exact ⟨a, hx, rfl⟩
  · rintro ⟨a, hx, rfl⟩
    exact ⟨a, s', hx, rfl⟩

theorem run_map_of_ok {x : EStateM ε σ α} {f : α → β} {s s' : σ} {a : α}
    (h : x.run s = .ok a s') : (f <$> x).run s = .ok (f a) s' :=
  Iff.mpr run_map_eq_ok ⟨a, h, rfl⟩

/-- A `try` whose body succeeds is its body. -/
theorem run_tryCatch_of_ok {x : EStateM ε σ α} {h : ε → EStateM ε σ α} {s s' : σ} {a : α}
    (hx : x.run s = .ok a s') : (tryCatch x h).run s = .ok a s' := by
  show EStateM.tryCatch x h s = _
  unfold EStateM.tryCatch
  simp only [EStateM.run] at hx
  rw [hx]

/-- A `try` whose body fails runs its handler from where the body stopped. -/
theorem run_tryCatch_of_error {x : EStateM ε σ α} {h : ε → EStateM ε σ α} {s t : σ} {e : ε}
    (hx : x.run s = .error e t) : (tryCatch x h).run s = (h e).run t := by
  show EStateM.tryCatch x h s = _
  unfold EStateM.tryCatch
  simp only [EStateM.run] at hx ⊢
  rw [hx]
  rfl

theorem run_tryCatch_eq_ok {x : EStateM ε σ α} {h : ε → EStateM ε σ α} {s s' : σ} {a : α} :
    (tryCatch x h).run s = .ok a s' ↔
      x.run s = .ok a s' ∨ ∃ e t, x.run s = .error e t ∧ (h e).run t = .ok a s' := by
  cases hx : x.run s with
  | ok b t => simp [run_tryCatch_of_ok hx]
  | error e t =>
    rw [run_tryCatch_of_error hx]
    simp only [reduceCtorEq, false_or, Result.error.injEq]
    exact ⟨fun h' => ⟨e, t, ⟨rfl, rfl⟩, h'⟩, fun ⟨_, _, ⟨rfl, rfl⟩, h'⟩ => h'⟩

/-- Go's call that drops a result (a bare call statement) runs the call for its effect. -/
theorem run_discard_eq_ok {x : EStateM ε σ α} {s s' : σ} {u : PUnit} :
    (discard x).run s = .ok u s' ↔ ∃ a, x.run s = .ok a s' := by
  show ((Function.const α PUnit.unit) <$> x).run s = .ok u s' ↔ _
  rw [run_map_eq_ok]
  simp

@[simp] theorem run_pure_eq_ok {a b : α} {s s' : σ} :
    (pure a : EStateM ε σ α).run s = .ok b s' ↔ a = b ∧ s = s' := by
  simp only [run_pure, Result.ok.injEq]

@[simp] theorem run_get_eq_ok {s s' t : σ} :
    (get : EStateM ε σ σ).run s = .ok t s' ↔ s = t ∧ s = s' := by
  simp only [run_get, Result.ok.injEq]

@[simp] theorem run_set_eq_ok {s s' t : σ} {u : PUnit} :
    (set t : EStateM ε σ PUnit).run s = .ok u s' ↔ t = s' := by
  simp only [run_set, Result.ok.injEq, true_and]

@[simp] theorem run_modify_eq_ok {f : σ → σ} {s s' : σ} {u : PUnit} :
    (modify f : EStateM ε σ PUnit).run s = .ok u s' ↔ f s = s' := by
  simp only [run_modify, Result.ok.injEq, true_and]

@[simp] theorem run_throw_ne_ok {e : ε} {s s' : σ} {a : α} :
    ¬ (throw e : EStateM ε σ α).run s = .ok a s' := by
  intro h
  cases h

theorem run_ite_eq_ok {c : Prop} [Decidable c] {x y : EStateM ε σ α} {s s' : σ} {a : α} :
    (if c then x else y).run s = .ok a s' ↔ (c ∧ x.run s = .ok a s') ∨ (¬ c ∧ y.run s = .ok a s') := by
  by_cases hc : c <;> simp [hc]

-- The two equations of a loop over a list, stated once: proofs rewrite with these rather than
-- with the equations Lean derives for List.forM on demand.
theorem forM_nil_eq (f : α → EStateM ε σ PUnit) : ([] : List α).forM f = pure () := rfl

theorem forM_cons_eq (f : α → EStateM ε σ PUnit) (x : α) (xs : List α) :
    (x :: xs).forM f = f x >>= fun _ => xs.forM f := rfl

/-- A loop over a list runs to its end exactly when each pass does, from the state the pass
before left. -/
theorem run_forM_cons_eq_ok {f : α → EStateM ε σ PUnit} {x : α} {xs : List α} {s s'' : σ}
    {u : PUnit} :
    ((x :: xs).forM f).run s = .ok u s'' ↔
      ∃ s', (f x).run s = .ok () s' ∧ (xs.forM f).run s' = .ok u s'' := by
  rw [forM_cons_eq, run_bind_eq_ok]
  constructor
  · rintro ⟨⟨⟩, s', h₁, h₂⟩
    exact ⟨s', h₁, h₂⟩
  · rintro ⟨s', h₁, h₂⟩
    exact ⟨(), s', h₁, h₂⟩

@[simp] theorem run_forM_nil_eq_ok {f : α → EStateM ε σ PUnit} {s s' : σ} {u : PUnit} :
    (([] : List α).forM f).run s = .ok u s' ↔ s = s' := by
  simp only [forM_nil_eq, run_pure_eq_ok, true_and]

/-- A loop stops with an error where one of its passes does. -/
theorem run_forM_cons_eq_error {f : α → EStateM ε σ PUnit} {x : α} {xs : List α} {s s'' : σ}
    {e : ε} :
    ((x :: xs).forM f).run s = .error e s'' ↔
      (f x).run s = .error e s'' ∨ ∃ s', (f x).run s = .ok () s' ∧ (xs.forM f).run s' = .error e s'' := by
  rw [forM_cons_eq, run_bind_eq_error]
  constructor
  · rintro (h | ⟨⟨⟩, s', h₁, h₂⟩)
    · exact .inl h
    · exact .inr ⟨s', h₁, h₂⟩
  · rintro (h | ⟨s', h₁, h₂⟩)
    · exact .inl h
    · exact .inr ⟨(), s', h₁, h₂⟩

/-! ## Loop invariants -/

/-- From every state in `I`, a run of `x` ends in `I` or stops with an error in `E`. -/
def Keeps (I : σ → Prop) (E : ε → Prop) (x : EStateM ε σ α) : Prop :=
  ∀ s, I s → (∀ a s', x.run s = .ok a s' → I s') ∧ (∀ e s', x.run s = .error e s' → E e)

/-- A loop keeps what each of its passes keeps. -/
theorem keeps_forM {I : σ → Prop} {E : ε → Prop} {f : α → EStateM ε σ PUnit} :
    ∀ {xs : List α}, (∀ x ∈ xs, Keeps I E (f x)) → Keeps I E (xs.forM f)
  | [], _ => fun s hs => ⟨fun _ s' h => (Iff.mp run_forM_nil_eq_ok h) ▸ hs, fun _ _ h => by cases h⟩
  | x :: xs, h => by
    intro s hs
    have hx := h x (List.mem_cons_self ..)
    have hxs : Keeps I E (xs.forM f) :=
      keeps_forM fun y hy => h y (List.mem_cons_of_mem _ hy)
    constructor
    · intro u s'' hrun
      obtain ⟨s', h₁, h₂⟩ := Iff.mp run_forM_cons_eq_ok hrun
      exact (hxs s' ((hx s hs).1 _ _ h₁)).1 _ _ h₂
    · intro e s'' hrun
      rcases Iff.mp run_forM_cons_eq_error hrun with h₁ | ⟨s', h₁, h₂⟩
      · exact (hx s hs).2 _ _ h₁
      · exact (hxs s' ((hx s hs).1 _ _ h₁)).2 _ _ h₂

/-! ## Programs that never stop with a given error -/

/-- `x` never stops with the error `e`, from any state. -/
def Avoids (e : ε) (x : EStateM ε σ α) : Prop := ∀ s s', x.run s ≠ .error e s'

section Avoids

variable {e : ε}

theorem avoids_pure (a : α) : Avoids e (pure a : EStateM ε σ α) := by
  intro s s' h
  cases h

theorem avoids_get : Avoids e (get : EStateM ε σ σ) := by
  intro s s' h
  cases h

theorem avoids_set (t : σ) : Avoids e (set t : EStateM ε σ PUnit) := by
  intro s s' h
  cases h

theorem avoids_modify (f : σ → σ) : Avoids e (modify f : EStateM ε σ PUnit) := by
  intro s s' h
  cases h

theorem avoids_throw {e' : ε} (h : e' ≠ e) : Avoids e (throw e' : EStateM ε σ α) := by
  intro s s' hr
  cases hr
  exact h rfl

theorem avoids_bind {x : EStateM ε σ α} {f : α → EStateM ε σ β} (hx : Avoids e x)
    (hf : ∀ a, Avoids e (f a)) : Avoids e (x >>= f) := by
  intro s s'
  rw [run_bind]
  cases h : x.run s with
  | ok a t => exact hf a t s'
  | error e' t =>
    intro hr
    cases hr
    exact hx s s' h

theorem avoids_seqRight {x : EStateM ε σ α} {y : EStateM ε σ β} (hx : Avoids e x)
    (hy : Avoids e y) : Avoids e (x *> y) := by
  rw [seqRight_eq_bind]
  exact avoids_bind hx fun _ => hy

theorem avoids_ite {c : Prop} [Decidable c] {x y : EStateM ε σ α} (hx : Avoids e x)
    (hy : Avoids e y) : Avoids e (if c then x else y) := by
  split
  · exact hx
  · exact hy

end Avoids

/-! ## Fuel

A loop that Go runs until it stops is modelled with fuel: at fuel zero it stops with a dedicated
error `e`. Two facts make such a model adequate. More fuel never changes a run that did not run
out (`Extends`, from one unit of fuel to the next and then to any more), and a run that keeps
coming back to an invariant after a positive amount of fuel runs out at every fuel
(`error_of_progress`).
-/

/-- `y` ends as `x` does wherever `x` does not stop with `e`. -/
def Extends (e : ε) (x y : EStateM ε σ α) : Prop :=
  ∀ s r, x.run s = r → (∀ s', r ≠ .error e s') → y.run s = r

section Extends

variable {e : ε}

theorem extends_refl (x : EStateM ε σ α) : Extends e x x := fun _ _ h _ => h

theorem Extends.trans {x y z : EStateM ε σ α} (hxy : Extends e x y) (hyz : Extends e y z) :
    Extends e x z := fun s r h hr => hyz s r (hxy s r h hr) hr

theorem extends_throw (y : EStateM ε σ α) : Extends e (throw e) y := by
  intro s r h hr
  exact absurd h.symm (hr s)

theorem extends_bind {x x' : EStateM ε σ α} {f f' : α → EStateM ε σ β} (hx : Extends e x x')
    (hf : ∀ a, Extends e (f a) (f' a)) : Extends e (x >>= f) (x' >>= f') := by
  intro s r h hr
  rw [run_bind] at h ⊢
  cases hxs : x.run s with
  | ok a t =>
    rw [hxs] at h
    rw [hx s _ hxs nofun]
    exact hf a t r h hr
  | error e' t =>
    rw [hxs] at h
    dsimp only at h
    subst h
    rw [hx s _ hxs fun s' h' => by cases h'; exact hr _ rfl]

theorem extends_seqRight {x x' : EStateM ε σ α} {y y' : EStateM ε σ β} (hx : Extends e x x')
    (hy : Extends e y y') : Extends e (x *> y) (x' *> y') := by
  rw [seqRight_eq_bind, seqRight_eq_bind]
  exact extends_bind hx fun _ => hy

theorem extends_ite {c : Prop} [Decidable c] {x x' y y' : EStateM ε σ α} (hx : Extends e x x')
    (hy : Extends e y y') : Extends e (if c then x else y) (if c then x' else y') := by
  split
  · exact hx
  · exact hy

theorem extends_forM {f f' : α → EStateM ε σ PUnit} (hf : ∀ x, Extends e (f x) (f' x)) :
    ∀ xs : List α, Extends e (xs.forM f) (xs.forM f')
  | [] => extends_refl _
  | x :: xs => by
    rw [forM_cons_eq, forM_cons_eq]
    exact extends_bind (hf x) fun _ => extends_forM hf xs

/-- A handler that lets the error `e` through keeps what its body extends. -/
theorem extends_tryCatch {x x' : EStateM ε σ α} {handler : ε → EStateM ε σ α}
    (hx : Extends e x x') (hh : ∀ s, ∃ s', (handler e).run s = .error e s') :
    Extends e (tryCatch x handler) (tryCatch x' handler) := by
  intro s r hr hne
  cases hxs : x.run s with
  | ok a t =>
    rw [run_tryCatch_of_ok hxs] at hr
    rw [run_tryCatch_of_ok (hx s _ hxs nofun), hr]
  | error e₁ t =>
    rw [run_tryCatch_of_error hxs] at hr
    by_cases he : e₁ = e
    · subst he
      obtain ⟨s', hs'⟩ := hh t
      rw [hs'] at hr
      exact absurd hr.symm (hne s')
    · rw [run_tryCatch_of_error (hx s _ hxs fun s' h' => he (Result.error.inj h').1), hr]

/-- A family that extends from each fuel to the next extends to any larger fuel. -/
theorem extends_of_le {run : Nat → EStateM ε σ α} (h : ∀ k, Extends e (run k) (run (k + 1)))
    {k k' : Nat} (hk : k ≤ k') : Extends e (run k) (run k') := by
  induction hk with
  | refl => exact extends_refl _
  | step _ ih => exact ih.trans (h _)

/-- A fuel-indexed run that only gains from fuel, stops with `e` at fuel zero, and from every
state of an invariant comes back to the invariant after a positive amount of fuel, stops with
`e` at every fuel. -/
theorem error_of_progress {run : Nat → EStateM ε σ α} (hmono : ∀ k, Extends e (run k) (run (k + 1)))
    (hzero : ∀ s, ∃ s', (run 0).run s = .error e s') {I : σ → Prop}
    (hprog : ∀ s, I s → ∃ c t, 0 < c ∧ I t ∧ ∀ f, (run (f + c)).run s = (run f).run t)
    (k : Nat) (s : σ) (hs : I s) : ∃ s', (run k).run s = .error e s' := by
  induction k using Nat.strongRecOn generalizing s with
  | ind k ih =>
    obtain ⟨c, t, hc, ht, hrun⟩ := hprog s hs
    by_cases hle : c ≤ k
    · rw [show k = (k - c) + c by omega, hrun]
      exact ih (k - c) (by omega) t ht
    · -- with less fuel than a pass, a run that did not run out would end as the whole pass does
      refine Classical.byContradiction fun hne => ?_
      obtain ⟨s', hs'⟩ := hzero t
      have hext := extends_of_le hmono (show k ≤ 0 + c by omega) s _ rfl (by simpa using hne)
      rw [hrun, hs'] at hext
      exact hne ⟨s', hext.symm⟩

end Extends

/-! ## Invariants of every run

Go's methods on a shared record keep what they wrote before an error, so an invariant of the
record must hold after a run that stops with an error as much as after one that returns.
-/

/-- The state a run ends in, with a result or with an error. -/
def Result.state : Result ε σ α → σ
  | .ok _ s => s
  | .error _ s => s

@[simp] theorem Result.state_ok (a : α) (s : σ) : (Result.ok a s : Result ε σ α).state = s := rfl

@[simp] theorem Result.state_error (e : ε) (s : σ) : (Result.error e s : Result ε σ α).state = s :=
  rfl

/-- From every state in `I`, a run of `x` ends in a state in `I`, with a result or an error. -/
def Preserves (I : σ → Prop) (x : EStateM ε σ α) : Prop := ∀ s, I s → I (x.run s).state

section Preserves

variable {I : σ → Prop}

theorem preserves_pure (a : α) : Preserves I (pure a : EStateM ε σ α) := fun _ hs => hs

theorem preserves_bind {x : EStateM ε σ α} {f : α → EStateM ε σ β} (hx : Preserves I x)
    (hf : ∀ a, Preserves I (f a)) : Preserves I (x >>= f) := by
  intro s hs
  have h := hx s hs
  rw [run_bind]
  cases hxs : x.run s with
  | ok a t =>
    rw [hxs] at h
    exact hf a t h
  | error e t =>
    rw [hxs] at h
    exact h

/-- A loop keeps what each of its passes keeps, up to the pass that stops it. -/
theorem preserves_forM {f : α → EStateM ε σ PUnit} :
    ∀ {xs : List α}, (∀ x ∈ xs, Preserves I (f x)) → Preserves I (xs.forM f)
  | [], _ => preserves_pure _
  | x :: xs, h => by
    have hxs : Preserves I (xs.forM f) :=
      preserves_forM fun y hy => h y (List.mem_cons_of_mem _ hy)
    rw [forM_cons_eq]
    exact preserves_bind (h x (List.mem_cons_self ..)) fun _ => hxs

end Preserves

end EStateM

/-! ## Writers that may fail

A writer that stops at its first error returns `Except`: its bytes, or the error. -/

namespace Except

variable {ε α β : Type}

theorem bind_eq_ok {x : Except ε α} {f : α → Except ε β} {b : β} :
    (x >>= f) = .ok b ↔ ∃ a, x = .ok a ∧ f a = .ok b := by
  cases x with
  | error e => simp only [bind, Except.bind, reduceCtorEq, false_and, exists_false]
  | ok a => simp only [bind, Except.bind, Except.ok.injEq, exists_eq_left']

theorem pure_eq_ok {a b : α} : (pure a : Except ε α) = .ok b ↔ a = b := by
  simp only [pure, Except.pure, Except.ok.injEq]

theorem mapError_eq_ok {ε' : Type} {f : ε → ε'} {x : Except ε α} {a : α} :
    x.mapError f = .ok a ↔ x = .ok a := by
  cases x <;> simp [Except.mapError]

/-- A fold that succeeds ends in a value with every property its steps keep. -/
theorem foldlM_invariant {f : β → α → Except ε β} {P : β → Prop}
    (hf : ∀ b a b', P b → f b a = .ok b' → P b') :
    ∀ (l : List α) {b b' : β}, P b → l.foldlM f b = .ok b' → P b'
  | [], _, _, hb, hok => by
    cases hok
    exact hb
  | a :: l, b, b', hb, hok => by
    rw [List.foldlM_cons] at hok
    obtain ⟨b₁, h₁, hrest⟩ := Iff.mp bind_eq_ok hok
    exact foldlM_invariant hf l (hf b a b₁ hb h₁) hrest

end Except
