import KuskCore.Bc.MapTx
import KuskCore.Standard.Programs
import KuskCore.Vm.Machine

/-!
# The VM context of an entry

`protocol/validation/vmcontext.go`. `NewTxVMContext` gives the VM the program of the entry being
verified, converted as `convertProgram` does, with what its introspection opcodes read: the
entry's ID and the signature hash, the transaction's version, the block's height, and for an
issuance or a spend its asset, amount, destination position and spent output. `CHECKOUTPUT` calls
`entryContext.checkOutput`, which follows the entry's destination to the mux and compares the
mux's destination at the given index with the arguments.

`bytesEqual` tells a `nil` slice of state data from an empty one. The VM's alt stack is `nil` until
something is pushed onto it, and an output's state data is `nil` when it has none, as
`ReadVarstrList` decodes it (`stateSlice`); a retirement is compared with `[][]byte{}`, which is
not `nil`.
-/

namespace KuskCore.Validation

open KuskCore.Bc KuskCore.Types KuskCore.Vm

/-- `bc.Block`, with what validation reads of it: the header's version and height, and the
transactions. -/
structure Block where
  version : Nat
  height : Nat
  transactions : List Tx

/-- `validationState` without its two shared pointers, the gas state and the cache, which the
traversal threads as its state; `first` says whether `tx` is the pointer `block.Transactions[0]`,
which is how Go tells the coinbase transaction. -/
structure ValidationState where
  block : Block
  tx : Tx
  first : Bool
  entryID : Hash
  sourcePos : Nat
  destPos : Nat

/-- `bytesEqual`: `nil` (`none`) is equal only to `nil`, and two slices to each other when their
items are. -/
def bytesEqual : Option (List Bytes) → Option (List Bytes) → Bool
  | none, none => true
  | some a, some b => a == b
  | _, _ => false

/-- The state data of a decoded output as a Go slice: `nil` when it has no items. -/
def stateSlice (stateData : List Bytes) : Option (List Bytes) :=
  if stateData.isEmpty then none else some stateData

section CheckOutput

variable (entries : List (Hash × Entry)) (index amount : Nat) (assetID : Bytes) (vmVersion : Nat)
  (code : Bytes) (state : Option (List Bytes)) (expansion : Bool)

/-- `check` inside `checkEntry`: an output's program, value and state data against the arguments. -/
def outputMatches (prog : Program) (value : AssetAmount) (stateData : Option (List Bytes)) : Bool :=
  prog.vmVersion == vmVersion && prog.code == code && value.assetId.bytes == assetID &&
    value.amount == amount && bytesEqual stateData state

/-- `checkEntry`. A retirement is compared with the zero program, whose code is `code` itself when
the expansion flag is set, and with the empty, non-`nil` state data. -/
def checkEntry : Entry → Except Exn Bool
  | .originalOutput o =>
    .ok (outputMatches amount assetID vmVersion code state o.controlProgram o.source.value
      (stateSlice o.stateData))
  | .voteOutput o =>
    .ok (outputMatches amount assetID vmVersion code state o.controlProgram o.source.value
      (stateSlice o.stateData))
  | .retirement r =>
    .ok (outputMatches amount assetID vmVersion code state
      { vmVersion := 0, code := if expansion then code else [] } r.source.value (some []))
  | _ => .error (.err .context)

/-- `checkMux`: the mux's destination at `index`. -/
def checkMux (m : Mux) : Except Exn Bool :=
  match m.witnessDestinations[index]? with
  | none => .error (.err .badValue)
  | some d =>
    match entries.lookup d.ref with
    | none => .error (.err .missingEntry)
    | some e => checkEntry amount assetID vmVersion code state expansion e

/-- The branch of `checkOutput` shared by an issuance, a spend and a veto input: the entry their
destination names, which is a mux, or else the one output at index zero. A `nil` destination is
dereferenced. -/
def checkDestination : Option ValueDestination → Except Exn Bool
  | none => .error .panic
  | some d =>
    match entries.lookup d.ref with
    | none => .error (.err .missingEntry)
    | some (.mux m) => checkMux entries index amount assetID vmVersion code state expansion m
    | some e =>
      if index ≠ 0 then .error (.err .badValue)
      else checkEntry amount assetID vmVersion code state expansion e

end CheckOutput

/-- `entryContext.checkOutput` for the entry `entry` of a transaction with entries `entries`, its
arguments in the order of `Context.checkOutput`. -/
def entryCheckOutput (entries : List (Hash × Entry)) (entry : Entry) (index amount : Nat)
    (assetID : Bytes) (vmVersion : Nat) (code : Bytes) (state : Option (List Bytes))
    (expansion : Bool) : Except Exn Bool :=
  match entry with
  | .mux m => checkMux entries index amount assetID vmVersion code state expansion m
  | .issuance i =>
    checkDestination entries index amount assetID vmVersion code state expansion
      i.witnessDestination
  | .spend s =>
    checkDestination entries index amount assetID vmVersion code state expansion
      s.witnessDestination
  | .vetoInput v =>
    checkDestination entries index amount assetID vmVersion code state expansion
      v.witnessDestination
  | _ => .error (.err .context)

section NewContext

variable (h : Hasher) (converter : Bytes → Option Bytes)

/-- `NewTxVMContext`; `none` where it panics: on an issuance or a spend with a `nil` destination,
and on a spend whose spent output is not an `OriginalOutput` of the transaction. -/
def newTxVMContext (vs : ValidationState) (entry : Entry) (prog : Program)
    (stateData args : List Bytes) : Option Context :=
  let tx := vs.tx
  let entryID := h.entryID entry.body
  let base : Context :=
    { vmVersion := prog.vmVersion, code := convertProgram prog.code converter, stateData
      arguments := args, entryID := entryID.bytes, txVersion := some tx.txHeader.version
      blockHeight := some vs.block.height, assetID := none, amount := none, destPos := none
      spentOutputID := none, txSigHash := some (h.sha3 (entryID.bytes ++ tx.id.bytes)).bytes
      checkOutput := some (entryCheckOutput tx.entries entry) }
  match entry with
  | .issuance i =>
    i.witnessDestination.map fun d =>
      { base with
        assetID := some i.value.assetId.bytes, amount := some i.value.amount
        destPos := some d.position }
  | .spend s =>
    match tx.entry s.spentOutputId, s.witnessDestination with
    | some (.originalOutput o), some d =>
      some { base with
        assetID := some o.source.value.assetId.bytes, amount := some o.source.value.amount
        destPos := some d.position, spentOutputID := some s.spentOutputId.bytes }
    | _, _ => none
  | _ => some base

end NewContext

end KuskCore.Validation
