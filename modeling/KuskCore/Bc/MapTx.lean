import KuskCore.Bc.Entry
import KuskCore.Types.Transaction
import KuskCore.Vm.Ops

/-!
# Mapping a transaction to its entries

`protocol/bc/types/map.go`. `mapInputs` gives each input an entry, and a spend or veto input also
the output it spends, recalled from its spend commitment with ordinal zero; `initMux` makes the mux
whose sources are the inputs' values and gives every input entry the mux as its destination;
`mapOutputs` makes one result entry per output, with the mux as its source, and lists them as the
mux's destinations; `generateTx` adds the header.

Go's `entryMap` holds pointers, and `SetDestination` and the mux's destinations are written after
the entries went into the map. Here each write holds its entry as it is when `MapTx` returns. The
map keeps the entry written last under an ID (`Tx.entry`), which is also the one Go keeps.

`MapTx` panics on an input with no typed input, and when the entry `initMux` finds under a spent
output's ID is not an output of the right kind; it returns `none` then.
-/

namespace KuskCore.Bc

open KuskCore.Types GoInt

/-- `consensus.KUSKAssetID`. -/
def kuskAssetID : Hash := ⟨List.replicate 32 0xff, List.length_replicate⟩

/-- `vmutil.IsUnspendable`: a program starting with `OP_FAIL`. -/
def isUnspendable (prog : List UInt8) : Bool := prog.head? == some Vm.Op.fail

/-- The mux's program: `OP_TRUE` for VM version 1. -/
def muxProgram : Program := { vmVersion := 1, code := [Vm.Op.op1] }

/-- What `mapInputs` makes of one input: the output it spends, if any, written first, then the
input's own entry; and the input's mux source. -/
structure MappedInput where
  prevout : Option (Hash × Entry)
  inputID : Hash
  input : Entry
  muxSource : ValueSource

/-- The writes of a mapped input, oldest first. -/
def MappedInput.writes (m : MappedInput) : List (Hash × Entry) :=
  m.prevout.toList ++ [(m.inputID, m.input)]

/-- The ID of the output a mapped input spends: its `SpentOutputIDs` entry. -/
def MappedInput.spentOutputID (m : MappedInput) : Option Hash := m.prevout.map (·.1)

section Map

variable (h : Hasher)

/-- `IssuanceInput.calcAssetID` as the transaction types take it: `bc.ComputeAssetID` of the
issuance program, the VM version and the hash of the asset definition. -/
def Hasher.calcAssetID (prog : List UInt8) (vmVersion : Nat) (assetDefinition : List UInt8) :
    Hash :=
  h.computeAssetID
    { issuanceProgram := { vmVersion, code := prog }, data := h.sha3 assetDefinition }

/-- A mapped input from its spent output, its entry and its value: the entry's ID is its
`EntryID`, and its mux source the value from position zero of it. -/
def mappedInput (prevout : Option (Hash × Entry)) (input : Entry) (value : AssetAmount) :
    MappedInput :=
  let id := h.entryID input.body
  { prevout, inputID := id, input, muxSource := { ref := id, value, position := 0 } }

/-- `mapIssuanceInput`. -/
def mapIssuanceInput (i : Nat) (ii : IssuanceInput) : MappedInput :=
  let value : AssetAmount := { assetId := ii.assetID h.calcAssetID, amount := ii.amount }
  mappedInput h none
    (.issuance
      { nonceHash := h.sha3 ii.nonce, value, witnessDestination := none
        witnessAssetDefinition :=
          { data := h.sha3 ii.assetDefinition
            issuanceProgram := { vmVersion := ii.vmVersion, code := ii.issuanceProgram } }
        witnessArguments := ii.arguments, ordinal := i })
    value

/-- The source of a spent output, from its spend commitment. -/
def SpendCommitment.source (sc : SpendCommitment) : ValueSource :=
  { ref := sc.sourceID, value := sc.assetAmount, position := sc.sourcePosition }

/-- The program of a spent output, from its spend commitment. -/
def SpendCommitment.program (sc : SpendCommitment) : Program :=
  { vmVersion := sc.vmVersion, code := sc.controlProgram }

/-- `mapSpendInput`. -/
def mapSpendInput (i : Nat) (si : SpendInput) : MappedInput :=
  let sc := si.spendCommitment
  let prevout : Entry := .originalOutput
    { source := SpendCommitment.source sc, controlProgram := SpendCommitment.program sc
      ordinal := 0
      stateData := sc.stateData }
  let prevoutID := h.entryID prevout.body
  mappedInput h (some (prevoutID, prevout))
    (.spend
      { spentOutputId := prevoutID, witnessDestination := none, witnessArguments := si.arguments
        ordinal := i })
    sc.assetAmount

/-- `mapVetoInput`. -/
def mapVetoInput (i : Nat) (vi : Types.VetoInput) : MappedInput :=
  let sc := vi.spendCommitment
  let prevout : Entry := .voteOutput
    { source := SpendCommitment.source sc, controlProgram := SpendCommitment.program sc
      ordinal := 0
      vote := vi.vote, stateData := sc.stateData }
  let prevoutID := h.entryID prevout.body
  mappedInput h (some (prevoutID, prevout))
    (.vetoInput
      { spentOutputId := prevoutID, witnessDestination := none, witnessArguments := vi.arguments
        ordinal := i })
    sc.assetAmount

/-- `mapCoinbaseInput`: the value is the outputs' total, summed in `uint64`. -/
def mapCoinbaseInput (outputs : List TxOutput) (cb : CoinbaseInput) : MappedInput :=
  mappedInput h none (.coinbase { witnessDestination := none, arbitrary := cb.arbitrary })
    { assetId := kuskAssetID
      amount := uint64 (outputs.map (·.outputCommitment.assetAmount.amount)).sum }

/-- The loop body of `mapInputs`; an input with no typed input panics. -/
def mapInput (outputs : List TxOutput) (i : Nat) (input : TxInput) : Option MappedInput :=
  match input.typedInput with
  | some (.issuance ii) => some (mapIssuanceInput h i ii)
  | some (.spend si) => some (mapSpendInput h i si)
  | some (.veto vi) => some (mapVetoInput h i vi)
  | some (.coinbase cb) => some (mapCoinbaseInput h outputs cb)
  | none => none

/-- `mapInputs`, from input `i` on. -/
def mapInputs (outputs : List TxOutput) : Nat → List TxInput → Option (List MappedInput)
  | _, [] => some []
  | i, input :: inputs => do
    let m ← mapInput h outputs i input
    let ms ← mapInputs outputs (i + 1) inputs
    pure (m :: ms)

/-- `SetDestination` of an input entry. -/
def Entry.setDestination (d : ValueDestination) : Entry → Entry
  | .issuance i => .issuance { i with witnessDestination := some d }
  | .spend s => .spend { s with witnessDestination := some d }
  | .vetoInput v => .vetoInput { v with witnessDestination := some d }
  | .coinbase c => .coinbase { c with witnessDestination := some d }
  | e => e

/-- Whether an entry is a coinbase. -/
def Entry.isCoinbase : Entry → Bool
  | .coinbase _ => true
  | _ => false

/-- The loops of `initMux` for one input entry: a spend or veto input takes the value of the output
found under its spent output's ID in the map `written`, where the type assertion panics on any
other entry; an issuance keeps its own value; the coinbase `mh.coinbase`, the last one, takes the
value of the mux's first source, and an earlier coinbase is not connected. -/
def connectInput (written : List (Hash × Entry)) (muxID : Hash) (sources : List ValueSource)
    (last : Bool) : Entry → Option Entry
  | .spend s =>
    match written.lookup s.spentOutputId with
    | some (.originalOutput o) =>
      some (Entry.setDestination ⟨muxID, o.source.value, s.ordinal⟩ (.spend s))
    | _ => none
  | .vetoInput v =>
    match written.lookup v.spentOutputId with
    | some (.voteOutput o) =>
      some (Entry.setDestination ⟨muxID, o.source.value, v.ordinal⟩ (.vetoInput v))
    | _ => none
  | .issuance i => some (Entry.setDestination ⟨muxID, i.value, i.ordinal⟩ (.issuance i))
  | .coinbase c =>
    if last then
      match sources with
      | s :: _ => some (Entry.setDestination ⟨muxID, s.value, 0⟩ (.coinbase c))
      | [] => none
    else some (.coinbase c)
  | e => some e

/-- `initMux`'s loops over the mapped inputs. -/
def connectInputs (written : List (Hash × Entry)) (muxID : Hash) (sources : List ValueSource) :
    List MappedInput → Option (List MappedInput)
  | [] => some []
  | m :: ms => do
    let input ← connectInput written muxID sources (!ms.any (·.input.isCoinbase)) m.input
    let ms' ← connectInputs written muxID sources ms
    pure ({ m with input } :: ms')

/-- The result entry `mapOutputs` makes of output `i`. -/
def mapOutput (muxID : Hash) (i : Nat) (out : TxOutput) : Entry :=
  let oc := out.outputCommitment
  let src : ValueSource := { ref := muxID, value := oc.assetAmount, position := i }
  let prog : Program := { vmVersion := oc.vmVersion, code := oc.controlProgram }
  if isUnspendable oc.controlProgram then .retirement { source := src, ordinal := i }
  else
    match out.typedOutput with
    | .original =>
      .originalOutput
        { source := src, controlProgram := prog, ordinal := i, stateData := oc.stateData }
    | .vote vote =>
      .voteOutput
        { source := src, controlProgram := prog, ordinal := i, vote, stateData := oc.stateData }

/-- `mapOutputs`: the result entries with their IDs, in output order. -/
def mapOutputs (muxID : Hash) (outputs : List TxOutput) : List (Hash × Entry) :=
  outputs.mapIdx fun i out =>
    let e := mapOutput muxID i out
    (h.entryID e.body, e)

/-- The mux's destination for an output: its result, position zero. -/
def resultDestination (out : TxOutput) (result : Hash × Entry) : ValueDestination :=
  { ref := result.1, value := out.outputCommitment.assetAmount, position := 0 }

/-- The mux `initMux` makes: the inputs' sources and the program, no destinations yet. -/
def initialMux (mapped : List MappedInput) : Mux :=
  { sources := mapped.map (·.muxSource), program := muxProgram, witnessDestinations := [] }

/-- `initMux`: the mux's ID, and the inputs connected to it as the map `mapInputs` and the mux left
it shows their spent outputs. -/
def initMux (mapped : List MappedInput) : Option (Hash × List MappedInput) :=
  let mux := initialMux mapped
  let muxID := h.entryID (Entry.mux mux).body
  (connectInputs ((muxID, .mux mux) :: (mapped.flatMap MappedInput.writes).reverse) muxID
    mux.sources mapped).map (muxID, ·)

/-- `generateTx`, after `mapOutputs` has added the results and the mux's destinations. -/
def generateTx (tx : TxData) (mapped : List MappedInput) (muxID : Hash)
    (connected : List MappedInput) : Tx :=
  let results := mapOutputs h muxID tx.outputs
  let mux : Mux :=
    { initialMux mapped with
      witnessDestinations := List.zipWith resultDestination tx.outputs results }
  let header : TxHeader :=
    { version := tx.version, serializedSize := tx.serializedSize, timeRange := tx.timeRange
      resultIds := results.map (·.1) }
  let id := h.entryID (Entry.txHeader header).body
  { txHeader := header, id
    entries := (id, .txHeader header) :: results.reverse ++
      (muxID, .mux mux) :: (connected.flatMap MappedInput.writes).reverse
    inputIDs := mapped.map (·.inputID)
    spentOutputIDs := mapped.filterMap MappedInput.spentOutputID }

/-- `MapTx`. -/
def mapTx (tx : TxData) : Option Tx := do
  let mapped ← mapInputs h tx.outputs 0 tx.inputs
  let (muxID, connected) ← initMux h mapped
  pure (generateTx h tx mapped muxID connected)

end Map

end KuskCore.Bc
