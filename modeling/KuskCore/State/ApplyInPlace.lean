import KuskCore.State.UtxoView

/-!
# Applying a transaction in place

`UtxoViewpoint.ApplyTransaction` writes into `view.Entries` as it goes. `applySpendUtxo` marks
each prevout spent through the entry's pointer (`entry.SpendOutput()`) before it looks at the
next, and returns at the first prevout that is missing, spent or still locked. `applyTransaction`
of `UtxoView` models the runs that succeed. Here the same loops run in place
(`applyTransactionInPlace`), and an error keeps the view it stops in.

A run in place that reaches its end ends where `applyTransaction` does
(`applyTransactionInPlace_eq_ok_iff`). A run that fails stops at a prevout that cannot be spent,
with every prevout before it spent and nothing else touched (`applyTransaction_error_state`). So the
view is left as it was only when the first prevout fails (`applySpendUtxo_eq_self_iff`).

`blockBuilder.preValidateTxs` applies the transactions of the block it builds to one view and skips
those that fail. A transaction spending a prevout that a failed one half-spent is then refused,
although it spends an unspent output (`halfSpend_counterexample`).
-/

namespace KuskCore.State

open KeyedUpdates KuskCore.Types EStateM

section InPlace

variable (votePendingBlockNums : UInt64 → UInt64)

/-- `applySpendUtxo` as the code runs it, on the view in place. -/
def applySpendUtxoInPlace (block : Block) (tx : Tx) : EStateM ViewError UtxoEntries PUnit :=
  runUpdatesInPlace
    (tx.spentOutputIDs.map fun prevout => (prevout, spendEntry votePendingBlockNums block))

/-- `applyOutputUtxo` as the code runs it, on the view in place. -/
def applyOutputUtxoInPlace (block : Block) (tx : Tx) : EStateM ViewError UtxoEntries PUnit :=
  runUpdatesInPlace ((createdUtxos block tx).map fun c => (c.1, fun _ => .ok (some c.2)))

/-- `ApplyTransaction` as the code runs it, on the view in place. -/
def applyTransactionInPlace (block : Block) (tx : Tx) : EStateM ViewError UtxoEntries PUnit :=
  applySpendUtxoInPlace votePendingBlockNums block tx >>= fun _ => applyOutputUtxoInPlace block tx

variable {votePendingBlockNums} {block : Block} {tx : Tx}

/-- Recording the outputs never fails. -/
theorem applyOutputUtxoInPlace_ne_error {view view' : UtxoEntries} {e : ViewError} :
    (applyOutputUtxoInPlace block tx).run view ≠ .error e view' := by
  rw [applyOutputUtxoInPlace, Ne, runUpdatesInPlace_eq_error_iff]
  rintro ⟨pre, k, f, rest, hus, -, hf⟩
  have hmem : (k, f) ∈ (createdUtxos block tx).map fun c => (c.1, fun _ => .ok (some c.2)) := by
    rw [hus]
    exact List.mem_append_right _ List.mem_cons_self
  obtain ⟨c, -, hc⟩ := List.mem_map.mp hmem
  rw [Prod.mk.injEq] at hc
  rw [← hc.2] at hf
  cases hf

/-- The run in place that reaches its end is the modelled `ApplyTransaction`. -/
theorem applyTransactionInPlace_eq_ok_iff {view view' : UtxoEntries} {u : PUnit} :
    (applyTransactionInPlace votePendingBlockNums block tx).run view = .ok u view' ↔
      applyTransaction votePendingBlockNums block tx view = .ok view' := by
  rw [applyTransactionInPlace, run_bind_eq_ok, applyTransaction]
  constructor
  · rintro ⟨⟨⟩, view₁, h₁, h₂⟩
    rw [applySpendUtxoInPlace, runUpdatesInPlace_eq_ok_iff] at h₁
    rw [applyOutputUtxoInPlace, runUpdatesInPlace_eq_ok_iff] at h₂
    rw [applySpendUtxo, h₁]
    exact h₂
  · intro h
    cases h₁ : applySpendUtxo votePendingBlockNums block tx view with
    | error e =>
      rw [h₁] at h
      cases h
    | ok view₁ =>
      rw [h₁] at h
      exact ⟨⟨⟩, view₁, Iff.mpr runUpdatesInPlace_eq_ok_iff h₁, Iff.mpr runUpdatesInPlace_eq_ok_iff h⟩

/-- A failed run in place stopped at a prevout that cannot be spent, in the view the prevouts
before it left. -/
theorem applyTransactionInPlace_eq_error_iff {view view' : UtxoEntries} {e : ViewError} :
    (applyTransactionInPlace votePendingBlockNums block tx).run view = .error e view' ↔
      ∃ pre p rest, tx.spentOutputIDs = pre ++ p :: rest ∧
        applySpendUtxo votePendingBlockNums block { tx with spentOutputIDs := pre } view = .ok view' ∧
        spendEntry votePendingBlockNums block (view'.lookup p) = .error e := by
  rw [applyTransactionInPlace, run_bind_eq_error, applySpendUtxoInPlace,
    runUpdatesInPlace_eq_error_iff]
  constructor
  · rintro (⟨pre, k, f, rest, hus, hpre, hf⟩ | ⟨⟨⟩, view₁, -, h₂⟩)
    · -- the update that failed is the spend of a prevout
      obtain ⟨pre', rest', hids, rfl, hrest⟩ := List.map_eq_append_iff.mp hus
      obtain ⟨p, rest'', rfl, hp, -⟩ := List.map_eq_cons_iff.mp hrest
      rw [Prod.mk.injEq] at hp
      obtain ⟨rfl, rfl⟩ := hp
      exact ⟨pre', p, rest'', hids, hpre, hf⟩
    · exact absurd h₂ applyOutputUtxoInPlace_ne_error
  · rintro ⟨pre, p, rest, hids, hpre, hp⟩
    exact .inl ⟨_, p, _, _, by rw [hids, List.map_append, List.map_cons], hpre, hp⟩

/-- A run of spends that succeeds spends each prevout it names, which was unspent, and touches
nothing else. -/
theorem lookup_of_applySpendUtxo {view view' : UtxoEntries}
    (h : applySpendUtxo votePendingBlockNums block tx view = .ok view') :
    (∀ q ∈ tx.spentOutputIDs, ∃ entry, view.lookup q = some entry ∧ entry.spent = false ∧
      view'.lookup q = some { entry with spent := true }) ∧
    ∀ k ∉ tx.spentOutputIDs, view'.lookup k = view.lookup k := by
  have hat : ∀ k, updatesAt k (tx.spentOutputIDs.map fun prevout =>
      (prevout, spendEntry votePendingBlockNums block)) =
        List.replicate (tx.spentOutputIDs.count k) (spendEntry votePendingBlockNums block) :=
    fun k => updatesAt_map_keys k (fun _ => spendEntry votePendingBlockNums block) _
  refine ⟨fun q hq => ?_, fun k hk => runUpdates_lookup_of_not_mem h ?_⟩
  · have hrun := runUpdates_lookup _ view view' h q
    rw [hat] at hrun
    rcases runAt_replicate_spendEntry votePendingBlockNums hrun with ⟨hc, -⟩ | ⟨-, hs⟩
    · exact absurd hc (Nat.pos_iff_ne_zero.mp (List.count_pos_iff.mpr hq))
    · exact spendEntry_eq_ok hs
  · rw [hat, List.count_eq_zero.mpr hk, List.replicate_zero]

/-- A run of spends that succeeds leaves the view as it was exactly when it spends nothing; so a
failed `ApplyTransaction` leaves the view as it was only when it stopped at the first prevout. -/
theorem applySpendUtxo_eq_self_iff {view view' : UtxoEntries}
    (h : applySpendUtxo votePendingBlockNums block tx view = .ok view') :
    view' = view ↔ tx.spentOutputIDs = [] := by
  constructor
  · intro heq
    cases hids : tx.spentOutputIDs with
    | nil => rfl
    | cons q rest =>
      -- the first prevout went from unspent to spent
      obtain ⟨entry, hbefore, hunspent, hafter⟩ :=
        (lookup_of_applySpendUtxo h).1 q (by rw [hids]; exact List.mem_cons_self)
      rw [heq, hbefore, Option.some.injEq] at hafter
      have := congrArg UtxoEntry.spent hafter
      rw [hunspent] at this
      cases this
  · intro hids
    rw [applySpendUtxo, hids] at h
    cases h
    rfl

/-- A failed `ApplyTransaction` stopped at a prevout `p` that cannot be spent, after the spends of
the prevouts before `p` succeeded: they are left spent, each of them unspent before the call, and
every other entry is left as it was. The view is therefore left as it was exactly when the call
stopped at the first prevout. -/
theorem applyTransaction_error_state (view view' : UtxoEntries) (e : ViewError) :
    (applyTransactionInPlace votePendingBlockNums block tx).run view = .error e view' ↔
      ∃ pre p rest, tx.spentOutputIDs = pre ++ p :: rest ∧
        applySpendUtxo votePendingBlockNums block { tx with spentOutputIDs := pre } view = .ok view' ∧
        spendEntry votePendingBlockNums block (view'.lookup p) = .error e ∧
        (∀ q ∈ pre, ∃ entry, view.lookup q = some entry ∧ entry.spent = false ∧
          view'.lookup q = some { entry with spent := true }) ∧
        (∀ k ∉ pre, view'.lookup k = view.lookup k) ∧
        (view' = view ↔ pre = []) := by
  rw [applyTransactionInPlace_eq_error_iff]
  constructor
  · rintro ⟨pre, p, rest, hids, hpre, hp⟩
    obtain ⟨hspent, hframe⟩ := lookup_of_applySpendUtxo hpre
    exact ⟨pre, p, rest, hids, hpre, hp, hspent, hframe, applySpendUtxo_eq_self_iff hpre⟩
  · rintro ⟨pre, p, rest, hids, hpre, hp, -⟩
    exact ⟨pre, p, rest, hids, hpre, hp⟩

end InPlace

/-! ## A half-spent view -/

/-- The output both sample transactions spend, unspent in the sample view. -/
def halfSpendOutput : Hash := Hash.ofByte 1

/-- An output the sample view does not hold. -/
def missingOutput : Hash := Hash.ofByte 2

/-- A view holding one unspent normal output. -/
def halfSpendView : UtxoEntries := (∅ : UtxoEntries).insert halfSpendOutput ⟨.normal, 0, false⟩

/-- The view with that output spent. -/
def halfSpentView : UtxoEntries := halfSpendView.insert halfSpendOutput ⟨.normal, 0, true⟩

/-- A transaction spending the unspent output, then the missing one. -/
def halfSpendTx : Tx := ⟨Hash.ofByte 3, [halfSpendOutput, missingOutput], [], []⟩

/-- A transaction spending the unspent output alone. -/
def respendTx : Tx := ⟨Hash.ofByte 4, [halfSpendOutput], [], []⟩

/-- The block under construction, at height 1. -/
def halfSpendBlock : Block := ⟨1, []⟩

theorem applyTransaction_error_state_halfSpend :
    ∃ pre p rest, halfSpendTx.spentOutputIDs = pre ++ p :: rest ∧
      applySpendUtxo (fun _ => 0) halfSpendBlock { halfSpendTx with spentOutputIDs := pre }
        halfSpendView = .ok halfSpentView ∧
      spendEntry (fun _ => 0) halfSpendBlock (halfSpentView.lookup p) = .error .missingEntry ∧
      (∀ q ∈ pre, ∃ entry, halfSpendView.lookup q = some entry ∧ entry.spent = false ∧
        halfSpentView.lookup q = some { entry with spent := true }) ∧
      (∀ k ∉ pre, halfSpentView.lookup k = halfSpendView.lookup k) ∧
      (halfSpentView = halfSpendView ↔ pre = []) :=
  (applyTransaction_error_state halfSpendView halfSpentView .missingEntry).mp rfl

/-- The failed transaction leaves its first prevout spent, and the transaction after it, which spends
that output alone and succeeds on the view as it was, is refused with "utxo has been spent". -/
theorem halfSpend_counterexample :
    (applyTransactionInPlace (fun _ => 0) halfSpendBlock halfSpendTx).run halfSpendView =
        .error .missingEntry halfSpentView ∧
      halfSpentView ≠ halfSpendView ∧
      applyTransaction (fun _ => 0) halfSpendBlock respendTx halfSpendView = .ok halfSpentView ∧
      (applyTransactionInPlace (fun _ => 0) halfSpendBlock respendTx).run halfSpentView =
        .error .spentEntry halfSpentView := by
  refine ⟨rfl, fun h => ?_, rfl, rfl⟩
  have := congrArg (AList.lookup halfSpendOutput) h
  exact absurd this (by decide)

end KuskCore.State
