import KuskCore.Validation.Run

/-!
# The gas state's steps

Each `GasState` method gets one lemma that says everything it does, its checks and the state it
returns (`setGas_eq_ok`, `chargeStorageGas_eq_ok`, `updateUsage_eq_ok`), and so does a VM run
(`verifyProgram_eq_ok`). The proofs about the traversal's gas cite these and never unfold a
method. From them, what the gas computations after `setGas` keep: `KUSKValue`, which only
`setGas` writes.
-/

namespace KuskCore.Validation

open KuskCore.Bc KuskCore.Types KuskCore.Vm KuskCore.Checked GoInt

namespace GasState

variable {g g' : GasState}

theorem setGas_eq_ok {kuskValue txSize : Int} :
    g.setGas kuskValue txSize = .ok g' ↔ 0 ≤ kuskValue ∧ ∃ gasLeft storageGas,
      divInt64 kuskValue vmGasRate = some gasLeft ∧
      mulInt64 txSize storageGasRate = some storageGas ∧
      g' =
        { g with
          kuskValue := kuskValue.toNat, storageGas := storageGas,
          gasLeft := if gasLeft > maxGasAmount then maxGasAmount else gasLeft } := by
  unfold setGas
  by_cases hv : kuskValue < 0
  · have hv' : ¬ 0 ≤ kuskValue := by omega
    simp [hv, hv', bind, Except.bind, throw, throwThe, MonadExceptOf.throw]
  have hv' : 0 ≤ kuskValue := by omega
  cases hd : divInt64 kuskValue vmGasRate with
  | none => simp [hv, throw, throwThe, MonadExceptOf.throw]
  | some gl =>
    cases hm : mulInt64 txSize storageGasRate with
    | none => simp [hv, throw, throwThe, MonadExceptOf.throw]
    | some sg => simp [hv, hv', pure, Except.pure, eq_comm]

theorem chargeStorageGas_eq_ok :
    g.chargeStorageGas = .ok g' ↔ ∃ gasLeft gasUsed,
      subInt64 g.gasLeft g.storageGas = some gasLeft ∧ 0 ≤ gasLeft ∧
      addInt64 g.gasUsed g.storageGas = some gasUsed ∧ g' = { g with gasLeft, gasUsed } := by
  unfold chargeStorageGas
  cases hs : subInt64 g.gasLeft g.storageGas with
  | none => simp [throw, throwThe, MonadExceptOf.throw]
  | some gl =>
    by_cases hl : gl < 0
    · have hl' : ¬ 0 ≤ gl := by omega
      simp [hl, hl', bind, Except.bind, throw, throwThe, MonadExceptOf.throw]
    · have hl' : 0 ≤ gl := by omega
      cases ha : addInt64 g.gasUsed g.storageGas with
      | none => simp [hl, throw, throwThe, MonadExceptOf.throw]
      | some gu => simp [hl, hl', pure, Except.pure, eq_comm]

/-- `updateUsage` adds what the run used to `GasUsed` with an `int64` wrap, unchecked. -/
theorem updateUsage_eq_ok {gasLeft : Int} :
    g.updateUsage gasLeft = .ok g' ↔ 0 ≤ gasLeft ∧ ∃ gasUsed,
      subInt64 g.gasLeft gasLeft = some gasUsed ∧ g.storageGas ≤ gasLeft ∧
      g' = { g with gasUsed := int64 (g.gasUsed + gasUsed), gasLeft } := by
  unfold updateUsage
  by_cases hl : gasLeft < 0
  · have hl' : ¬ 0 ≤ gasLeft := by omega
    simp [hl, hl', bind, Except.bind, throw, throwThe, MonadExceptOf.throw]
  have hl' : 0 ≤ gasLeft := by omega
  cases hs : subInt64 g.gasLeft gasLeft with
  | none => simp [hl, throw, throwThe, MonadExceptOf.throw]
  | some u =>
    by_cases hc : g.storageGas ≤ gasLeft
    · have hc' : ¬ g.storageGas > gasLeft := by omega
      simp [hl, hl', hc, hc', pure, Except.pure, eq_comm]
    · have hc' : g.storageGas > gasLeft := by omega
      simp [hl, hc, hc', bind, Except.bind, throw, throwThe, MonadExceptOf.throw]

theorem chargeStorageGas_kuskValue (hg : g.chargeStorageGas = .ok g') :
    g'.kuskValue = g.kuskValue := by
  obtain ⟨_, _, -, -, -, rfl⟩ := Iff.mp chargeStorageGas_eq_ok hg
  rfl

theorem updateUsage_kuskValue {gasLeft : Int} (hg : g.updateUsage gasLeft = .ok g') :
    g'.kuskValue = g.kuskValue := by
  obtain ⟨-, _, -, -, rfl⟩ := Iff.mp updateUsage_eq_ok hg
  rfl

end GasState

section Runs

variable (h : Hasher) (converter : Bytes → Option Bytes)
  (verify : Context → Int → Option (Int × Option VMError))
variable {vs : ValidationState} {g g' : GasState}

/-- A VM run passes when its context is built and the VM returns without an error; the gas it
leaves goes to `updateUsage`. -/
theorem verifyProgram_eq_ok {entry : Entry} {prog : Program} {stateData args : List Bytes} :
    verifyProgram h converter verify vs entry prog stateData args g = .ok g' ↔
      ∃ ctx gasLeft, newTxVMContext h converter vs entry prog stateData args = some ctx ∧
        verify ctx g.gasLeft = some (gasLeft, none) ∧ g.updateUsage gasLeft = .ok g' := by
  unfold verifyProgram
  cases hc : newTxVMContext h converter vs entry prog stateData args with
  | none => simp
  | some ctx =>
    rcases hv : verify ctx g.gasLeft with _ | ⟨gasLeft, _ | err⟩ <;> simp [hv]

theorem verifyProgram_kuskValue {entry : Entry} {prog : Program} {stateData args : List Bytes}
    (hg : verifyProgram h converter verify vs entry prog stateData args g = .ok g') :
    g'.kuskValue = g.kuskValue := by
  obtain ⟨_, _, -, -, hu⟩ := (verifyProgram_eq_ok h converter verify).mp hg
  exact GasState.updateUsage_kuskValue hu

/-- Every successful gas computation of an input is one VM run. -/
theorem inputGas_verifyProgram {e : Entry} (hg : inputGas h converter verify vs e g = .ok g') :
    ∃ entry prog stateData args,
      verifyProgram h converter verify vs entry prog stateData args g = .ok g' := by
  cases e with
  | issuance i =>
    simp only [inputGas] at hg
    split at hg
    · cases hg
    · exact ⟨_, _, _, _, hg⟩
  | spend s =>
    obtain ⟨_, -, hv⟩ := Iff.mp Except.bind_eq_ok hg
    exact ⟨_, _, _, _, hv⟩
  | vetoInput v =>
    obtain ⟨_, -, hrest⟩ := Iff.mp Except.bind_eq_ok hg
    -- the key's length is checked before the run
    split at hrest
    · cases hrest
    · exact ⟨_, _, _, _, hrest⟩
  | _ => cases hg

/-- The mux's loop over its sources keeps every property of the gas state that each VM run
keeps. -/
theorem sources_invariant {P : GasState → Prop}
    (hP : ∀ entry prog stateData args g g', P g →
      verifyProgram h converter verify vs entry prog stateData args g = .ok g' → P g')
    {srcs : List ValueSource} (hg₀ : P g)
    (hg : srcs.foldlM (sourceGas h converter verify vs) g = .ok g') : P g' := by
  refine Except.foldlM_invariant (fun g₁ src g₂ hg₁ hstep => ?_) srcs hg₀ hg
  unfold sourceGas at hstep
  split at hstep
  · obtain ⟨entry, prog, stateData, args, hv⟩ := inputGas_verifyProgram h converter verify hstep
    exact hP entry prog stateData args g₁ g₂ hg₁ hv
  · cases hstep

/-- The mux's loop over its sources leaves `KUSKValue` alone. -/
theorem sources_kuskValue {srcs : List ValueSource}
    (hg : srcs.foldlM (sourceGas h converter verify vs) g = .ok g') :
    g'.kuskValue = g.kuskValue :=
  sources_invariant h converter verify (P := fun g₁ => g₁.kuskValue = g.kuskValue)
    (fun _ _ _ _ _ _ h₁ hv => (verifyProgram_kuskValue h converter verify hv).trans h₁) rfl hg

end Runs

end KuskCore.Validation
