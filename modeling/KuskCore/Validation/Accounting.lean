import KuskCore.Validation.Conservation
import KuskCore.Vm.Mint
import KuskCore.Standard.PubKeyHash

/-!
# Gas accounting

Once `setGas` has bought the gas `G`, a transaction's gas only moves between `GasLeft` and
`GasUsed`: a VM run moves what it used, and the storage charge moves `StorageGas`. If the VM runs
of the transaction's inputs never hand back more gas than they were given (`RunsGasBounded`, over
the contexts `inputContext` builds), the accounts `Accounts G S` hold after every run of the mux's
sources, and after the storage charge `GasUsed` covers `StorageGas` (`muxGas_accounting`,
`validateTx_gasAccounting`). The runs of a pay-to-witness-public-key-hash spend are bounded
(`Vm.verify_p2PKH_gasLeft`, `validateTx_gasAccounting_keySpend`). `updateUsage` adds what a run
used without a check, so a run that hands back more makes `GasUsed` shrink: the VM of `Vm.Step`
does on `mintProgram`, and a spend of an output locked by it validates with `GasUsed` below
`StorageGas` (`validateTx_mintSpend`).
-/

namespace KuskCore.Validation

open KuskCore.Bc KuskCore.Types KuskCore.Vm KuskCore.Checked GoInt

/-- The accounts of a gas state once `setGas` has bought the gas `G` and fixed the storage gas
`S`: `GasLeft` and `GasUsed` are not negative and add up to `G`. -/
structure Accounts (G S : Int) (g : GasState) : Prop where
  gasLeft_nonneg : 0 ≤ g.gasLeft
  gasUsed_nonneg : 0 ≤ g.gasUsed
  sum : g.gasLeft + g.gasUsed = G
  storageGas_eq : g.storageGas = S

section Accounts

variable {G S : Int} {g g' : GasState}

/-- Below `MaxGasAmount`, both counters fit in an `int64`. -/
theorem Accounts.inRange (ha : Accounts G S g) (hG : G ≤ maxGasAmount) :
    int64Width.InRange g.gasLeft ∧ int64Width.InRange g.gasUsed := by
  have hsum := ha.sum
  have hl := ha.gasLeft_nonneg
  have hu := ha.gasUsed_nonneg
  simp only [SignedWidth.InRange, int64Width_min, int64Width_max, minInt64, maxInt64]
  unfold maxGasAmount at hG
  omega

/-- A VM run that hands back at most the gas it was given moves what it used from `GasLeft` to
`GasUsed`; below `MaxGasAmount` the unchecked sum does not wrap. -/
theorem Accounts.updateUsage (ha : Accounts G S g) (hG : G ≤ maxGasAmount) {gasLeft : Int}
    (hle : gasLeft ≤ g.gasLeft) (hu : g.updateUsage gasLeft = .ok g') : Accounts G S g' := by
  obtain ⟨hl, used, hsub, -, rfl⟩ := Iff.mp GasState.updateUsage_eq_ok hu
  obtain ⟨-, rfl⟩ := (subSigned_eq_some_iff (ha.inRange hG).1).mp hsub
  have hsum := ha.sum
  have hu₀ := ha.gasUsed_nonneg
  have hwrap : int64 (g.gasUsed + (g.gasLeft - gasLeft)) = g.gasUsed + (g.gasLeft - gasLeft) := by
    unfold maxGasAmount at hG
    exact int64_of_le (by omega) (by omega)
  refine ⟨hl, ?_, ?_, ha.storageGas_eq⟩
  · show 0 ≤ int64 (g.gasUsed + (g.gasLeft - gasLeft))
    rw [hwrap]
    omega
  · show gasLeft + int64 (g.gasUsed + (g.gasLeft - gasLeft)) = G
    rw [hwrap]
    omega

/-- The storage charge moves `StorageGas` from `GasLeft` to `GasUsed`, both checked, so that
`GasUsed` covers it. -/
theorem Accounts.chargeStorageGas (ha : Accounts G S g) (hG : G ≤ maxGasAmount)
    (hc : g.chargeStorageGas = .ok g') :
    0 ≤ g'.gasLeft ∧ g'.gasLeft + g'.gasUsed = G ∧ S ≤ g'.gasUsed ∧ g'.storageGas = S := by
  obtain ⟨gl, gu, hsub, hgl, hadd, rfl⟩ := Iff.mp GasState.chargeStorageGas_eq_ok hc
  obtain ⟨-, rfl⟩ := (subSigned_eq_some_iff (ha.inRange hG).1).mp hsub
  obtain ⟨-, rfl⟩ := (addSigned_eq_some_iff (ha.inRange hG).2).mp hadd
  have hsum := ha.sum
  have hu₀ := ha.gasUsed_nonneg
  have hS := ha.storageGas_eq
  refine ⟨hgl, ?_, ?_, hS⟩
  · show g.gasLeft - g.storageGas + (g.gasUsed + g.storageGas) = G
    omega
  · show S ≤ g.gasUsed + g.storageGas
    omega

end Accounts

section Runs

variable (h : Hasher) (converter : Bytes → Option Bytes)
  (verify : Context → Int → Option (Int × Option VMError))

/-- The VM context in which `inputGas` runs an input entry, once the checks it makes first have
passed: an issuance's program under its asset definition, or the control program and state data
of the output that a spend or a veto spends. -/
def inputContext (vs : ValidationState) : Entry → Option Context
  | .issuance i =>
    if h.computeAssetID i.witnessAssetDefinition ≠ i.value.assetId then none
    else
      newTxVMContext h converter vs (.issuance i) i.witnessAssetDefinition.issuanceProgram []
        i.witnessArguments
  | .spend s =>
    match vs.tx.originalOutput s.spentOutputId with
    | .ok o =>
      newTxVMContext h converter vs (.spend s) o.controlProgram o.stateData s.witnessArguments
    | .error _ => none
  | .vetoInput v =>
    match vs.tx.voteOutput v.spentOutputId with
    | .ok o =>
      if o.vote.length ≠ 64 then none
      else
        newTxVMContext h converter vs (.vetoInput v) o.controlProgram o.stateData
          v.witnessArguments
    | .error _ => none
  | _ => none

/-- The VM runs of the transaction's inputs hand back no more gas than they were given, and none
below zero, at every gas limit up to `MaxGasAmount`. -/
def RunsGasBounded (vs : ValidationState) : Prop :=
  ∀ ref e ctx, vs.tx.entry ref = some e → inputContext h converter vs e = some ctx →
    ∀ gasLimit gasLeft, 0 ≤ gasLimit → gasLimit ≤ maxGasAmount →
      verify ctx gasLimit = some (gasLeft, none) → 0 ≤ gasLeft ∧ gasLeft ≤ gasLimit

variable {vs : ValidationState} {G S : Int} {g g' : GasState}

/-- A successful gas computation of an input is one VM run, in the input's context. -/
theorem inputGas_run {e : Entry} (hg : inputGas h converter verify vs e g = .ok g') :
    ∃ ctx gasLeft, inputContext h converter vs e = some ctx ∧
      verify ctx g.gasLeft = some (gasLeft, none) ∧ g.updateUsage gasLeft = .ok g' := by
  cases e with
  | issuance i =>
    rw [inputGas] at hg
    split at hg
    · cases hg
    · rename_i hid
      obtain ⟨ctx, gasLeft, hctx, hvm, hu⟩ := (verifyProgram_eq_ok h converter verify).mp hg
      exact ⟨ctx, gasLeft, by rw [inputContext, if_neg hid, hctx], hvm, hu⟩
  | spend s =>
    obtain ⟨o, ho, hrun⟩ := Iff.mp Except.bind_eq_ok hg
    obtain ⟨ctx, gasLeft, hctx, hvm, hu⟩ := (verifyProgram_eq_ok h converter verify).mp hrun
    refine ⟨ctx, gasLeft, ?_, hvm, hu⟩
    rw [inputContext, Iff.mp Except.mapError_eq_ok ho]
    exact hctx
  | vetoInput v =>
    obtain ⟨o, ho, hrest⟩ := Iff.mp Except.bind_eq_ok hg
    -- the key's length is checked before the run
    split at hrest
    · cases hrest
    · rename_i hvote
      obtain ⟨ctx, gasLeft, hctx, hvm, hu⟩ := (verifyProgram_eq_ok h converter verify).mp hrest
      refine ⟨ctx, gasLeft, ?_, hvm, hu⟩
      rw [inputContext, Iff.mp Except.mapError_eq_ok ho]
      dsimp only
      rw [if_neg hvote]
      exact hctx
  | _ => cases hg

/-- The accounts hold after every VM run of the mux's sources, when the runs of the
transaction's inputs are bounded. -/
theorem Accounts.sources (hv : RunsGasBounded h converter verify vs) (ha : Accounts G S g)
    (hG : G ≤ maxGasAmount) {srcs : List ValueSource}
    (hg : srcs.foldlM (sourceGas h converter verify vs) g = .ok g') : Accounts G S g' := by
  refine Except.foldlM_invariant (fun g₁ src g₂ ha₁ hstep => ?_) srcs ha hg
  unfold sourceGas at hstep
  split at hstep
  · rename_i e he
    obtain ⟨ctx, gasLeft, hctx, hvm, hu⟩ := inputGas_run h converter verify hstep
    -- the run is given `GasLeft`, which is at most the gas bought
    have hle : g₁.gasLeft ≤ maxGasAmount := by
      have hsum := ha₁.sum
      have hu₀ := ha₁.gasUsed_nonneg
      omega
    exact ha₁.updateUsage hG (hv _ e ctx he hctx _ _ ha₁.gasLeft_nonneg hle hvm).2 hu
  · cases hstep

end Runs

/-- From the zero gas state, `parityGas` buys `min(KUSKValue / VMGasRate, MaxGasAmount)` gas and
fixes the storage gas at the transaction's size, or, without KUSK, leaves the zero state. -/
theorem parityGas_accounts {txSize : Int} {p : Parity} {g : GasState} (hbd : p.Bounded)
    (hg : parityGas txSize p GasState.zero = .ok g) :
    Accounts (min ((g.kuskValue : Int) / vmGasRate) maxGasAmount) g.storageGas g ∧
      (g.storageGas = txSize * storageGasRate ∨ g = GasState.zero) := by
  have hset := (parityGas_balanced hg).2
  cases hl : p.lookup kuskAssetID with
  | none =>
    rw [hl] at hset
    obtain rfl : g = GasState.zero := hset
    exact ⟨⟨Int.le_refl 0, Int.le_refl 0, by decide, rfl⟩, .inr rfl⟩
  | some v =>
    rw [hl] at hset
    obtain ⟨hv, gl, sg, hdiv, hmul, rfl⟩ := Iff.mp GasState.setGas_eq_ok hset
    have hin : int64Width.InRange v := by simpa [Parity.total, hl] using hbd kuskAssetID
    obtain ⟨-, rfl⟩ := (divSigned_eq_some_iff hin).mp hdiv
    obtain ⟨-, rfl⟩ := Iff.mp mulSigned_eq_some_iff hmul
    rw [Int.tdiv_eq_ediv_of_nonneg hv]
    have hq : 0 ≤ v / vmGasRate := Int.ediv_nonneg hv (by decide)
    refine ⟨⟨?_, Int.le_refl 0, ?_, rfl⟩, .inl rfl⟩
    · show 0 ≤ if v / vmGasRate > maxGasAmount then maxGasAmount else v / vmGasRate
      split
      · decide
      · exact hq
    · show (if v / vmGasRate > maxGasAmount then maxGasAmount else v / vmGasRate) + 0 =
        min ((v.toNat : Int) / vmGasRate) maxGasAmount
      rw [Int.toNat_of_nonneg hv]
      split <;> omega

section Mux

variable (h : Hasher) (converter : Bytes → Option Bytes)
  (verify : Context → Int → Option (Int × Option VMError))

/-- When the runs of the transaction's inputs are bounded, a mux whose gas computation from the
zero gas state passes ends with `GasLeft` not negative, `GasLeft` and `GasUsed` adding up to the
gas `KUSKValue` bought, and `GasUsed` covering `StorageGas`, which is the transaction's size unless
the transaction has no KUSK. -/
theorem muxGas_accounting {vs : ValidationState} (hv : RunsGasBounded h converter verify vs)
    {mux : Mux}
    {g : GasState} (hg : muxGas h converter verify vs mux GasState.zero = .ok g) :
    0 ≤ g.gasLeft ∧ g.gasLeft + g.gasUsed = min ((g.kuskValue : Int) / vmGasRate) maxGasAmount ∧
      g.storageGas ≤ g.gasUsed ∧
      (g.storageGas = int64 vs.tx.txHeader.serializedSize * storageGasRate ∨
        (g.storageGas = 0 ∧ g.kuskValue = 0)) := by
  obtain ⟨p, g₁, g₂, hp, hg₁, hg₂, hg⟩ := (muxGas_eq_ok h converter verify).mp hg
  obtain ⟨ha₁, hS⟩ := parityGas_accounts (muxParity_bounded hp) hg₁
  have hG : min ((g₁.kuskValue : Int) / vmGasRate) maxGasAmount ≤ maxGasAmount :=
    Int.min_le_right _ _
  have ha₂ := ha₁.sources h converter verify hv hG hg₂
  obtain ⟨hl, hsum, hcover, hstorage⟩ := ha₂.chargeStorageGas hG hg
  -- `KUSKValue` is the one `setGas` wrote
  have hkv : g.kuskValue = g₁.kuskValue := by
    rw [GasState.chargeStorageGas_kuskValue hg, sources_kuskValue h converter verify hg₂]
  rw [hkv]
  refine ⟨hl, hsum, hstorage ▸ hcover, ?_⟩
  rw [hstorage]
  rcases hS with hS | rfl
  · exact .inl hS
  · exact .inr ⟨rfl, rfl⟩

end Mux

section Transaction

variable (h : Hasher) (converter : Bytes → Option Bytes)
  (verify : Context → Int → Option (Int × Option VMError))

/-- A transaction `MapTx` built without a coinbase input or a hash collision, validated with
outputs or in a block of version 1, returns the gas state of its mux's gas computation. -/
theorem validateTx_mapped_muxGas {t : TxData} {tx : Tx} (hmap : mapTx h t = some tx)
    (hcf : tx.CollisionFree)
    (hcb : ∀ input ∈ t.inputs, ∀ cb, input.typedInput ≠ some (.coinbase cb)) {block : Block}
    (hres : t.outputs ≠ [] ∨ block.version = 1) {fuel : Nat} {first : Bool} {g : GasState}
    (hok : validateTx h converter verify fuel tx block first = .ok g) :
    ∃ mux : Mux, muxGas h converter verify ⟨block, tx, first, tx.id, 0, 0⟩ mux GasState.zero =
      .ok g := by
  obtain ⟨-, -, -, hnodup, -⟩ := (validateTx_eq_ok h converter verify).mp hok
  obtain ⟨muxID, mux, hw, -, hdst⟩ := mapTx_wired hmap hcf hnodup hcb
  -- the header names a result: with outputs, or since a version-1 block needs version 1
  have hne : mux.witnessDestinations ≠ [] := by
    intro hnil
    rcases hres with hout | hb
    · rw [hnil, List.map_nil] at hdst
      exact hout (List.map_eq_nil_iff.mp hdst.symm)
    · have hids : tx.txHeader.resultIds = [] := by rw [hw.resultIds, hnil, List.map_nil]
      cases fuel with
      | zero => exact validateTx_zero_ne_ok h converter verify hok
      | succ n => exact ((validateTx_noResults h converter verify hids n).mp hok).1 hb
  exact ⟨mux, (validateTx_wired_of_ok h converter verify hw hne hok).2.2.2.2.2⟩

/-- A transaction `MapTx` built without a coinbase input or a hash collision, validated with
outputs or in a block of version 1 and with the VM runs of its inputs bounded, keeps its gas
accounts: `GasLeft` is not negative, `GasLeft` and `GasUsed` add up to
`min(KUSKValue / VMGasRate, MaxGasAmount)`, and `GasUsed` covers `StorageGas`, which is the
serialized size unless the transaction has no KUSK. -/
theorem validateTx_gasAccounting {t : TxData} {tx : Tx} (hmap : mapTx h t = some tx)
    (hcf : tx.CollisionFree)
    (hcb : ∀ input ∈ t.inputs, ∀ cb, input.typedInput ≠ some (.coinbase cb)) {block : Block}
    (hres : t.outputs ≠ [] ∨ block.version = 1) {first : Bool}
    (hv : RunsGasBounded h converter verify ⟨block, tx, first, tx.id, 0, 0⟩) {fuel : Nat}
    {g : GasState} (hok : validateTx h converter verify fuel tx block first = .ok g) :
    0 ≤ g.gasLeft ∧ g.gasLeft + g.gasUsed = min ((g.kuskValue : Int) / vmGasRate) maxGasAmount ∧
      g.storageGas ≤ g.gasUsed ∧
      (g.storageGas = int64 tx.txHeader.serializedSize * storageGasRate ∨
        (g.storageGas = 0 ∧ g.kuskValue = 0)) := by
  obtain ⟨mux, hmux⟩ := validateTx_mapped_muxGas h converter verify hmap hcf hcb hres hok
  obtain ⟨hl, hsum, hcover, hstorage⟩ := muxGas_accounting h converter verify hv hmux
  exact ⟨hl, hsum, hcover, hstorage⟩

/-- Every context `newTxVMContext` builds carries the 32 bytes of the signature hash. -/
theorem newTxVMContext_txSigHash {vs : ValidationState} {entry : Entry} {prog : Program}
    {stateData args : List Bytes} {ctx : Context}
    (hctx : newTxVMContext h converter vs entry prog stateData args = some ctx) :
    ∃ m, ctx.txSigHash = some m ∧ m.length = 32 := by
  refine ⟨_, ?_, (h.sha3 ((h.entryID entry.body).bytes ++ vs.tx.id.bytes)).length_bytes⟩
  unfold newTxVMContext at hctx
  dsimp only at hctx
  split at hctx
  · obtain ⟨d, -, rfl⟩ := Option.map_eq_some_iff.mp hctx
    rfl
  · split at hctx
    · cases hctx
      rfl
    · cases hctx
  · cases hctx
    rfl

theorem inputContext_txSigHash {vs : ValidationState} {e : Entry} {ctx : Context}
    (hctx : inputContext h converter vs e = some ctx) :
    ∃ m, ctx.txSigHash = some m ∧ m.length = 32 := by
  unfold inputContext at hctx
  split at hctx
  · split at hctx
    · cases hctx
    · exact newTxVMContext_txSigHash h converter hctx
  · split at hctx
    · exact newTxVMContext_txSigHash h converter hctx
    · cases hctx
  · split at hctx
    · split at hctx
      · cases hctx
      · exact newTxVMContext_txSigHash h converter hctx
    · cases hctx
  · cases hctx

/-- A spend of 1,000,000 units of KUSK from a pay-to-witness-public-key-hash output of the key hash
of 20 zero bytes, with an empty signature and a 32-byte key as arguments. -/
def keySpendInput : TxInput :=
  { assetVersion := 1, commitmentSuffix := [], witnessSuffix := []
    typedInput := some (.spend
      { spendCommitmentSuffix := [], arguments := [[], List.replicate 32 0]
        spendCommitment :=
          { assetAmount := ⟨kuskAssetID, 1000000⟩, sourceID := natHash 77, sourcePosition := 0
            vmVersion := 1, controlProgram := p2WPKHProgram (List.replicate 20 0)
            stateData := [] } }) }

/-- The key spend, 400,000 of its units to an output, in a transaction of 100 bytes. -/
def keySpend : TxData :=
  { version := 1, serializedSize := 100, timeRange := 0
    inputs := [keySpendInput], outputs := [trueOutput 400000 kuskAssetID] }

set_option maxRecDepth 10000 in
theorem validateTx_gasAccounting_keySpend :
    ∃ tx g, mapTx sampleHasher keySpend = some tx ∧
      validateTx sampleHasher (fun _ => none) sampleVerify 4 tx ⟨1, 10, []⟩ false = .ok g ∧
      0 ≤ g.gasLeft ∧ g.gasLeft + g.gasUsed = min ((g.kuskValue : Int) / vmGasRate) maxGasAmount ∧
      g.storageGas ≤ g.gasUsed ∧
      (g.storageGas = int64 tx.txHeader.serializedSize * storageGasRate ∨
        (g.storageGas = 0 ∧ g.kuskValue = 0)) := by
  obtain ⟨tx, hmap, hcf, hok, hkey⟩ : ∃ tx, mapTx sampleHasher keySpend = some tx ∧
      tx.CollisionFree ∧
      validateTx sampleHasher (fun _ => none) sampleVerify 4 tx ⟨1, 10, []⟩ false =
        .ok ⟨600000, 1491, 1509, 100⟩ ∧
      ∀ p ∈ tx.entries, (inputContext sampleHasher (fun _ => none)
        ⟨⟨1, 10, []⟩, tx, false, tx.id, 0, 0⟩ p.2).all fun ctx =>
          ctx.vmVersion == 1 && ctx.code == p2PKHSigProgram (List.replicate 20 0) :=
    ⟨_, rfl, by decide +kernel, by decide +kernel, by decide +kernel⟩
  -- the one run is the key spend's, which `CHECKSIG` keeps within what it was given
  have hruns : RunsGasBounded sampleHasher (fun _ => none) sampleVerify
      ⟨⟨1, 10, []⟩, tx, false, tx.id, 0, 0⟩ := by
    intro ref e ctx he hctx gasLimit gasLeft h₀ h₁ hvm
    have hk := hkey (ref, e) (mem_of_lookup_eq_some he)
    rw [hctx, Option.all_some, Bool.and_eq_true, beq_iff_eq, beq_iff_eq] at hk
    obtain ⟨m, hm, hml⟩ := inputContext_txSigHash _ _ hctx
    exact verify_p2PKH_gasLeft constCrypto ctx (k := 12) hk.1 (by decide) hk.2 hm hml h₀
      (h₁.trans (by decide)) hvm
  have hcb : ∀ input ∈ keySpend.inputs, ∀ cb, input.typedInput ≠ some (.coinbase cb) := by
    simp [keySpend, keySpendInput]
  exact ⟨tx, _, hmap, hok, validateTx_gasAccounting sampleHasher _ _ hmap hcf hcb
    (.inl (by simp [keySpend])) hruns hok⟩

end Transaction

/-! ## A VM run that hands back more gas -/

/-- 1,000,000 units of KUSK spent from an output locked by `mintProgram`, 400,000 of them to an
output, in a transaction of 100 bytes. -/
def mintSpend : TxData :=
  { version := 1, serializedSize := 100, timeRange := 0
    inputs := [spendInput 1000000 kuskAssetID mintProgram]
    outputs := [trueOutput 400000 kuskAssetID] }

set_option maxRecDepth 10000 in
/-- With the VM of `Vm.Step`, the spend's run of `mintProgram` with 3000 gas hands back 3039, so the
transaction validates in a block of version 1 with `GasUsed` 61 below its `StorageGas` 100. -/
theorem validateTx_mintSpend :
    ∃ tx, mapTx sampleHasher mintSpend = some tx ∧ tx.CollisionFree ∧
      validateTx sampleHasher (fun _ => none) sampleVerify 4 tx ⟨1, 10, []⟩ false =
        .ok ⟨600000, 2939, 61, 100⟩ :=
  ⟨_, rfl, by decide +kernel, by decide +kernel⟩

end KuskCore.Validation
