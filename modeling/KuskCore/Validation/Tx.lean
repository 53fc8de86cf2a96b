import Mathlib
import KuskCore.Validation.Context

/-!
# Transaction validation

`protocol/validation/tx.go`. `ValidateTx` checks a mapped transaction's version, size, time range
and inputs, then walks its entries from the header: `checkValid` checks an entry and, through
`checkValidSrc`, every entry its value comes from; `checkValidDest` checks that the entry a
destination names takes the value back. Each entry's result is memoised under its ID.

The mux is where value is conserved: its sources' totals per asset, less its destinations', must
be zero, except for KUSK, whose surplus buys the gas (`setGas`). Every issuance, spend and veto
input runs its program in the VM with the gas left, and pays what it used (`updateUsage`); the mux
then charges the transaction's storage (`chargeStorageGas`).

The traversal runs in `EStateM` over the two pointers the copies of `validationState` share: the
gas state and the cache. Every change of the gas state is a `GasState` function applied with
`modifyGas`, the mux's third loop and a VM run included. `checkValid` takes fuel; Go's recursion
has none, and ends only on the graph's leaves. `vm.Verify` is a parameter, `verify`, which returns
`none` where the VM's model runs out of fuel.

A `GasState` method that fails leaves the state as it was; Go leaves it partly written, but
`ValidateTx` returns no gas state on any error. Go ranges over the map `parity` in random order,
which decides only which error is reported; here it is the order of the `AList`.
-/

namespace KuskCore.Validation

open KuskCore.Bc KuskCore.Types KuskCore.Vm KuskCore.Checked GoInt

/-- The errors of `validation/tx.go`, with `bc.ErrMissingEntry` and `bc.ErrEntryType`, an error of
`vm.Verify`, `fmt.Errorf`'s "entry has unexpected type", a Go runtime panic, and the end of the
model's fuel. -/
inductive ValidationError where
  | txVersion
  | wrongTransactionSize
  | badTimeRange
  | inputDoubleSend
  | wrongCoinbaseTransaction
  | wrongCoinbaseAsset
  | coinbaseArbitraryOversize
  | emptyResults
  | mismatchedAssetID
  | mismatchedPosition
  | mismatchedReference
  | mismatchedValue
  | missingField
  | noSource
  | overflow
  | position
  | unbalanced
  | overGasCredit
  | gasCalculate
  | votePubKey
  | voteOutputAmount
  | voteOutputAsset
  | entry (e : EntryError)
  | unexpectedEntry
  | vm (e : VMError)
  | panic
  | outOfFuel
  deriving DecidableEq

/-! ## Gas -/

/-- `consensus.VMGasRate`. -/
def vmGasRate : Int := 200

/-- `consensus.StorageGasRate`. -/
def storageGasRate : Int := 1

/-- `consensus.MaxGasAmount`. -/
def maxGasAmount : Int := 300000

/-- `consensus.MinVoteOutputAmount`. -/
def minVoteOutputAmount : Nat := 1000000000000

/-- `consensus.CoinbaseArbitrarySizeLimit`. -/
def coinbaseArbitrarySizeLimit : Nat := 128

/-- `GasState`. -/
structure GasState where
  kuskValue : Nat
  gasLeft : Int
  gasUsed : Int
  storageGas : Int
  deriving DecidableEq

/-- `&GasState{}`. -/
def GasState.zero : GasState := ⟨0, 0, 0, 0⟩

/-- `setGas`: the gas the KUSK surplus buys, at most `MaxGasAmount`, and the storage gas of the
transaction's size. -/
def GasState.setGas (g : GasState) (kuskValue txSize : Int) : Except ValidationError GasState := do
  if kuskValue < 0 then throw .gasCalculate
  let some gasLeft := divInt64 kuskValue vmGasRate | throw .gasCalculate
  let gasLeft := if gasLeft > maxGasAmount then maxGasAmount else gasLeft
  let some storageGas := mulInt64 txSize storageGasRate | throw .gasCalculate
  pure { g with kuskValue := kuskValue.toNat, gasLeft, storageGas }

/-- `chargeStorageGas`. -/
def GasState.chargeStorageGas (g : GasState) : Except ValidationError GasState := do
  let some gasLeft := subInt64 g.gasLeft g.storageGas | throw .gasCalculate
  if gasLeft < 0 then throw .gasCalculate
  let some gasUsed := addInt64 g.gasUsed g.storageGas | throw .gasCalculate
  pure { g with gasLeft, gasUsed }

/-- `updateUsage`: what a VM run used is added to `GasUsed` without an overflow check. -/
def GasState.updateUsage (g : GasState) (gasLeft : Int) : Except ValidationError GasState := do
  if gasLeft < 0 then throw .gasCalculate
  let some gasUsed := subInt64 g.gasLeft gasLeft | throw .gasCalculate
  let g' := { g with gasUsed := int64 (g.gasUsed + gasUsed), gasLeft }
  if g'.storageGas > g'.gasLeft then throw .overGasCredit
  pure g'

/-! ## The traversal -/

/-- The state the copies of `validationState` share: `*GasState` and the map `cache`, as its
writes, newest first; a cached `none` is a `nil` error. -/
structure ValState where
  gas : GasState
  cache : List (Hash × Option ValidationError)

/-- Go code over the shared gas state and cache. -/
abbrev ValM := EStateM ValidationError ValState

/-- Returning an error, or going on with the value. -/
def liftExcept {α : Type} : Except ValidationError α → ValM α
  | .ok a => pure a
  | .error e => throw e

/-- Calling a `GasState` method on the shared gas state. -/
def modifyGas (f : GasState → Except ValidationError GasState) : ValM Unit := do
  let g ← liftExcept (f (← get).gas)
  modify fun s => { s with gas := g }

/-- `checkValid`'s memo: a cached result is returned; otherwise the body runs and its result,
error or not, is cached under the entry's ID, as the deferred write does. -/
def memo (entryID : Hash) (body : ValM Unit) : ValM Unit := do
  match (← get).cache.lookup entryID with
  | some none => pure ()
  | some (some err) => throw err
  | none =>
    tryCatch
      (do
        body
        modify fun s => { s with cache := (entryID, none) :: s.cache })
      (fun err => do
        modify fun s => { s with cache := (entryID, some err) :: s.cache }
        throw err)

/-- The map `parity`, from asset IDs to `int64` totals. -/
abbrev Parity := AList fun _ : Hash => Int

/-- The first loop of the mux case: each source's amount, which must fit in an `int64`, added to
its asset's total with `AddInt64`. -/
def addSources (parity : Parity) : List ValueSource → Except ValidationError Parity
  | [] => .ok parity
  | src :: srcs => do
    if (src.value.amount : Int) > maxInt64 then throw .overflow
    let some sum := addInt64 ((parity.lookup src.value.assetId).getD 0) src.value.amount
      | throw .overflow
    addSources (parity.insert src.value.assetId sum) srcs

/-- The second loop: each destination's amount taken from its asset's total, which must exist. -/
def subDestinations (parity : Parity) : List ValueDestination → Except ValidationError Parity
  | [] => .ok parity
  | dest :: dests => do
    let some sum := parity.lookup dest.value.assetId | throw .noSource
    if (dest.value.amount : Int) > maxInt64 then throw .overflow
    let some diff := subInt64 sum dest.value.amount | throw .overflow
    subDestinations (parity.insert dest.value.assetId diff) dests

/-- The third loop: the KUSK total sets the gas, and any other total must be zero. -/
def parityGas (txSize : Int) (parity : Parity) (g : GasState) : Except ValidationError GasState :=
  List.foldlM
    (fun g ⟨assetID, amount⟩ =>
      if assetID = kuskAssetID then g.setGas amount txSize
      else if amount ≠ 0 then .error .unbalanced
      else .ok g)
    g parity.entries

/-- `checkValidDest`: the entry the destination names takes the value back, from this entry and
position. -/
def checkValidDest (vs : ValidationState) : Option ValueDestination → Except ValidationError Unit
  | none => .error .missingField
  | some vd => do
    let some e := vs.tx.entry vd.ref | throw (.entry .missingEntry)
    let src ← match e with
      | .originalOutput o => if vd.position ≠ 0 then throw .position else pure o.source
      | .retirement r => if vd.position ≠ 0 then throw .position else pure r.source
      | .voteOutput o => if vd.position ≠ 0 then throw .position else pure o.source
      | .mux m =>
        match m.sources[vd.position]? with
        | none => throw .position
        | some s => pure s
      | _ => throw (.entry .entryType)
    if src.ref ≠ vs.entryID then throw .mismatchedReference
    if src.position ≠ vs.destPos then throw .mismatchedPosition
    if src.value ≠ vd.value then throw .mismatchedValue

/-- The branch of `checkValidSrc`'s switch shared by a coinbase, an issuance, a spend and a veto
input: position zero, and the entry's destination, dereferenced. -/
def inputDestination (position : Nat) (d : Option ValueDestination) :
    Except ValidationError ValueDestination :=
  if position ≠ 0 then .error .position
  else
    match d with
    | some d => .ok d
    | none => .error .panic

/-- The switch of `checkValidSrc`: the destination through which the entry a source names gives
its value. -/
def sourceDestination (position : Nat) : Entry → Except ValidationError ValueDestination
  | .coinbase c => inputDestination position c.witnessDestination
  | .issuance i => inputDestination position i.witnessDestination
  | .spend s => inputDestination position s.witnessDestination
  | .vetoInput v => inputDestination position v.witnessDestination
  | .mux m =>
    match m.witnessDestinations[position]? with
    | none => .error .position
    | some d => .ok d
  | _ => .error (.entry .entryType)

section Traversal

variable (h : Hasher) (converter : Bytes → Option Bytes)
  (verify : Context → Int → Option (Int × Option VMError))

/-- `checkValidSrc`, with `checkValid` as `check`: the entry the source names is valid, and gives
its value to this entry at this position. -/
def checkValidSrc (check : ValidationState → Option Entry → ValM Unit) (vstate : ValidationState)
    (vs : ValueSource) : ValM Unit := do
  let some e := vstate.tx.entry vs.ref | throw (.entry .missingEntry)
  check { vstate with entryID := vs.ref } (some e)
  let dest ← liftExcept (sourceDestination vs.position e)
  if dest.ref ≠ vstate.entryID then throw .mismatchedReference
  if dest.position ≠ vstate.sourcePos then throw .mismatchedPosition
  if dest.value ≠ vs.value then throw .mismatchedValue

/-- The VM run of an issuance, spend or veto input: `vm.Verify` of the program in the context
`NewTxVMContext` builds, with the gas left, then `updateUsage` of the gas it returns. -/
def verifyProgram (vs : ValidationState) (entry : Entry) (prog : Program)
    (stateData args : List Bytes) (g : GasState) : Except ValidationError GasState :=
  match newTxVMContext h converter vs entry prog stateData args with
  | none => .error .panic
  | some ctx =>
    match verify ctx g.gasLeft with
    | none => .error .outOfFuel
    | some (_, some e) => .error (.vm e)
    | some (gasLeft, none) => g.updateUsage gasLeft

/-- The switch of `checkValid`, with `checkValid` itself as `check`; `none` is a `nil` entry. -/
def checkValidBody (check : ValidationState → Option Entry → ValM Unit) (vs : ValidationState) :
    Option Entry → ValM Unit
  | some (.txHeader hdr) => do
    hdr.resultIds.forM fun resID => check { vs with entryID := resID } (vs.tx.entry resID)
    if hdr.version = 1 ∧ hdr.resultIds = [] then throw .emptyResults
  | some (.mux m) => do
    let parity ← liftExcept (addSources ∅ m.sources >>= (subDestinations · m.witnessDestinations))
    modifyGas (parityGas (int64 vs.tx.txHeader.serializedSize) parity)
    m.witnessDestinations.zipIdx.forM fun (dest, i) =>
      liftExcept (checkValidDest { vs with destPos := i } (some dest))
    m.sources.zipIdx.forM fun (src, i) => checkValidSrc check { vs with sourcePos := i } src
    modifyGas GasState.chargeStorageGas
  | some (.originalOutput o) => checkValidSrc check { vs with sourcePos := 0 } o.source
  | some (.retirement r) => checkValidSrc check { vs with sourcePos := 0 } r.source
  | some (.voteOutput o) => do
    if o.vote.length ≠ 64 then throw .votePubKey
    checkValidSrc check { vs with sourcePos := 0 } o.source
    if o.source.value.amount < minVoteOutputAmount then throw .voteOutputAmount
    if o.source.value.assetId ≠ kuskAssetID then throw .voteOutputAsset
  | some (.issuance i) => do
    if h.computeAssetID i.witnessAssetDefinition ≠ i.value.assetId then throw .mismatchedAssetID
    modifyGas (verifyProgram h converter verify vs (.issuance i)
      i.witnessAssetDefinition.issuanceProgram [] i.witnessArguments)
    liftExcept (checkValidDest { vs with destPos := 0 } i.witnessDestination)
  | some (.spend s) => do
    let spentOutput ← liftExcept ((vs.tx.originalOutput s.spentOutputId).mapError .entry)
    modifyGas (verifyProgram h converter verify vs (.spend s) spentOutput.controlProgram
      spentOutput.stateData s.witnessArguments)
    let some d := s.witnessDestination | throw .panic
    if spentOutput.source.value ≠ d.value then throw .mismatchedValue
    liftExcept (checkValidDest { vs with destPos := 0 } (some d))
  | some (.vetoInput v) => do
    let voteOutput ← liftExcept ((vs.tx.voteOutput v.spentOutputId).mapError .entry)
    if voteOutput.vote.length ≠ 64 then throw .votePubKey
    modifyGas (verifyProgram h converter verify vs (.vetoInput v) voteOutput.controlProgram
      voteOutput.stateData v.witnessArguments)
    let some d := v.witnessDestination | throw .panic
    if voteOutput.source.value ≠ d.value then throw .mismatchedValue
    liftExcept (checkValidDest { vs with destPos := 0 } (some d))
  | some (.coinbase c) => do
    if vs.block.transactions.isEmpty || !vs.first then throw .wrongCoinbaseTransaction
    let some d := c.witnessDestination | throw .panic
    if d.value.assetId ≠ kuskAssetID then throw .wrongCoinbaseAsset
    if c.arbitrary.length > coinbaseArbitrarySizeLimit then throw .coinbaseArbitraryOversize
    liftExcept (checkValidDest { vs with destPos := 0 } (some d))
    modify fun s => { s with gas := { s.gas with storageGas := 0 } }
  | none => throw .unexpectedEntry

/-- `bc.EntryID` of a possibly `nil` entry: the zero hash for `nil`. -/
def entryIDOf (e : Option Entry) : Hash := (e.map fun e => h.entryID e.body).getD Hash.zero

/-- `checkValid`, with fuel for the depth of its recursion. -/
def checkValid : Nat → ValidationState → Option Entry → ValM Unit
  | 0, _, _ => throw .outOfFuel
  | fuel + 1, vs, e =>
    memo (entryIDOf h e) (checkValidBody h converter verify (checkValid fuel) vs e)

/-- `checkDoubleSpend`: the loop finds a repeated input ID exactly when there is one. -/
def checkDoubleSpend (tx : Tx) : Except ValidationError Unit :=
  if tx.inputIDs.Nodup then .ok () else .error .inputDoubleSend

/-- `checkTimeRange`: a time range of zero never expires. -/
def checkTimeRange (tx : Tx) (block : Block) : Except ValidationError Unit :=
  if tx.txHeader.timeRange = 0 then .ok ()
  else if tx.txHeader.timeRange < block.height then .error .badTimeRange
  else .ok ()

/-- `ValidateTx`: the gas state of a valid transaction. `first` says whether `tx` is, as a pointer,
the block's first transaction. -/
def validateTx (fuel : Nat) (tx : Tx) (block : Block) (first : Bool) :
    Except ValidationError GasState := do
  if block.version = 1 ∧ tx.txHeader.version ≠ 1 then throw .txVersion
  if tx.txHeader.serializedSize = 0 then throw .wrongTransactionSize
  checkTimeRange tx block
  checkDoubleSpend tx
  let vs : ValidationState := { block, tx, first, entryID := tx.id, sourcePos := 0, destPos := 0 }
  match (checkValid h converter verify fuel vs (some (.txHeader tx.txHeader))).run
      ⟨GasState.zero, []⟩ with
  | .ok _ s => pure s.gas
  | .error e _ => throw e

/-- `ValidateTxs`: each transaction of the block validated on its own, the first as the one at
index zero. -/
def validateTxs (fuel : Nat) (block : Block) : List (Except ValidationError GasState) :=
  block.transactions.mapIdx fun i tx => validateTx h converter verify fuel tx block (i = 0)

end Traversal

end KuskCore.Validation
