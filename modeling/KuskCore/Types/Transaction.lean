import KuskCore.Types.TxInput

/-!
# Transaction outputs and transactions on the wire

`protocol/bc/types/txoutput.go`, `original_output.go`, `vote_output.go` and `transaction.go`. An
output is its asset version, a type byte, an extensible string of its typed part and its output
commitment, and an empty witness string. A transaction is the serialization flags, its version
and time range, and its inputs and outputs behind their counts; reading it also records the
number of bytes it took as `SerializedSize`.

`TxOutput.readFrom_run` reads back every output. `TxData.readFrom_run` reads back every
transaction, with `SerializedSize` the length of its encoding, but with the commitment suffix of
each spend or veto input twice, as `TxInput.readFrom_run` has it.
-/

namespace KuskCore.Types

open GoInt EStateM KuskCore.Blockchain

/-- The two implementations of the `TypedOutput` interface: `originalTxOutput` and
`VoteOutput`. -/
inductive TypedOutput where
  | original
  | vote (vote : List UInt8)
  deriving DecidableEq, Inhabited

def originalOutputType : UInt8 := 0
def voteOutputType : UInt8 := 1

/-- `OutputType`. -/
def TypedOutput.outputType : TypedOutput → UInt8
  | .original => originalOutputType
  | .vote _ => voteOutputType

/-- `outputTypeMap`: a fresh typed output for each known type byte. -/
def outputTypeMap (t : UInt8) : Option TypedOutput :=
  if t = originalOutputType then some .original
  else if t = voteOutputType then some (.vote [])
  else none

/-- `parseTypedOutput`: one type byte. -/
def parseTypedOutput : Reader TypedOutput := do
  let outType ← readFull 1
  match outputTypeMap (outType.headD 0) with
  | some newOut => pure newOut
  | none => throw (.unsupportedOutputType (outType.headD 0))

/-- `writeTo` of a typed output: nothing for an original output, the vote for a vote. -/
def TypedOutput.writeTo : TypedOutput → Except CodecError (List UInt8)
  | .original => pure []
  | .vote v => writeVarstr31 v

/-- `readFrom` of a typed output. -/
def TypedOutput.readFrom : TypedOutput → Reader TypedOutput
  | .original => pure .original
  | .vote _ => .vote <$> readVarstr31

/-- `TxOutput`. -/
structure TxOutput where
  assetVersion : Nat
  outputCommitment : OutputCommitment
  commitmentSuffix : List UInt8
  typedOutput : TypedOutput
  deriving DecidableEq, Inhabited

/-- `TxOutput.writeTo`: the witness is always the empty string. -/
def TxOutput.writeTo (o : TxOutput) : Except CodecError (List UInt8) := do
  let assetVersion ← writeVarint63 o.assetVersion
  let commitment ← writeExtensibleString o.commitmentSuffix (do
    let typed ← o.typedOutput.writeTo
    let outputCommitment ← o.outputCommitment.writeTo o.assetVersion
    pure (typed ++ outputCommitment))
  let witness ← writeVarstr31 []
  pure (assetVersion ++ [o.typedOutput.outputType] ++ commitment ++ witness)

/-- The reader of the commitment string of an output. -/
def TxOutput.readOutputCommitment (assetVersion : Nat) (typedOutput : TypedOutput) :
    Reader (TypedOutput × OutputCommitment) := do
  let typedOutput ← typedOutput.readFrom
  let outputCommitment ← OutputCommitment.readFrom assetVersion
  pure (typedOutput, outputCommitment)

/-- `TxOutput.readFrom`, into a fresh output: the witness string is read and dropped. -/
def TxOutput.readFrom : Reader TxOutput := do
  let assetVersion ← readVarint63
  let typedOutput ← parseTypedOutput
  let ((typedOutput, outputCommitment), commitmentSuffix) ←
    readExtensibleString (TxOutput.readOutputCommitment assetVersion typedOutput)
  let _ ← readVarstr31
  pure { assetVersion, outputCommitment, commitmentSuffix, typedOutput }

/-- An output whose commitment reads back (`OutputCommitment.Readable`). -/
def TxOutput.Readable (o : TxOutput) : Prop := o.outputCommitment.Readable o.assetVersion

/-- `serRequired`: the only serialization flags a transaction is read with. -/
def serRequired : UInt8 := 0x7

/-- `TxData`. -/
structure TxData where
  version : Nat
  serializedSize : Nat
  timeRange : Nat
  inputs : List TxInput
  outputs : List TxOutput
  deriving DecidableEq, Inhabited

section Codec

variable (computeAssetID : List UInt8 → Nat → List UInt8 → Hash)

/-- `TxData.writeTo`; `SerializedSize` is not written. -/
def TxData.writeTo (tx : TxData) (serflags : UInt8) : Except CodecError (List UInt8) := do
  let version ← writeVarint63 tx.version
  let timeRange ← writeVarint63 tx.timeRange
  let inputCount ← writeVarint31 tx.inputs.length
  let inputs ← tx.inputs.mapM (TxInput.writeTo computeAssetID)
  let outputCount ← writeVarint31 tx.outputs.length
  let outputs ← tx.outputs.mapM TxOutput.writeTo
  pure ([serflags] ++ version ++ timeRange ++ inputCount ++ inputs.flatten ++ outputCount ++
    outputs.flatten)

/-- `TxData.readFrom`, into a fresh transaction: `SerializedSize` is the number of bytes read. -/
def TxData.readFrom : Reader TxData := do
  let start ← get
  let serflags ← readFull 1
  if serflags.headD 0 ≠ serRequired then throw (.unsupportedSerflags (serflags.headD 0))
  let version ← readVarint63
  let timeRange ← readVarint63
  let n ← readVarint31
  let inputs ← readRepeat (TxInput.readFrom computeAssetID) n []
  let n ← readVarint31
  let outputs ← readRepeat TxOutput.readFrom n []
  let now ← get
  pure { version, serializedSize := start.length - now.length, timeRange, inputs, outputs }

/-- A transaction whose inputs and outputs read back. -/
def TxData.Readable (tx : TxData) : Prop :=
  (∀ t ∈ tx.inputs, t.Readable computeAssetID) ∧ ∀ o ∈ tx.outputs, o.Readable

instance TxData.decidableReadable (tx : TxData) : Decidable (tx.Readable computeAssetID) :=
  inferInstanceAs (Decidable
    ((∀ t ∈ tx.inputs, t.Readable computeAssetID) ∧ ∀ o ∈ tx.outputs, o.outputCommitment.Readable o.assetVersion))

end Codec

section RoundTrip

variable {computeAssetID : List UInt8 → Nat → List UInt8 → Hash} {rest bs : List UInt8}

theorem parseTypedOutput_run {t : UInt8} {typed : TypedOutput} (h : outputTypeMap t = some typed) :
    parseTypedOutput.run ([t] ++ rest) = .ok typed rest := by
  unfold parseTypedOutput
  rw [run_bind_of_ok (readFull_run (show [t].length = 1 from rfl))]
  simp only [List.headD_cons, h]
  rfl

/-- A typed output reads back into the fresh one its type byte gives. -/
theorem TypedOutput.readFrom_run {typed : TypedOutput} (h : typed.writeTo = .ok bs) :
    ∃ fresh, outputTypeMap typed.outputType = some fresh ∧
      ∀ rest, fresh.readFrom.run (bs ++ rest) = .ok typed rest := by
  unfold writeTo at h
  cases typed with
  | original =>
    cases Iff.mp Except.pure_eq_ok h
    exact ⟨.original, rfl, fun _ => rfl⟩
  | vote v => exact ⟨.vote [], rfl, fun _ => run_map_of_ok (readVarstr31_run h)⟩

/-- An output reads back as written. -/
theorem TxOutput.readFrom_run {o : TxOutput} (hr : o.Readable) (h : o.writeTo = .ok bs) :
    TxOutput.readFrom.run (bs ++ rest) = .ok o rest := by
  simp only [writeTo, Except.bind_eq_ok, Except.pure_eq_ok] at h
  obtain ⟨av, hav, commitment, hcommitment, witness, hwitness, rfl⟩ := h
  obtain ⟨contents, hcontents, hcommitment⟩ := Iff.mp Except.bind_eq_ok hcommitment
  simp only [Except.bind_eq_ok, Except.pure_eq_ok] at hcontents
  obtain ⟨typed, htyped, oc, hoc, rfl⟩ := hcontents
  obtain ⟨fresh, hfresh, hread⟩ := TypedOutput.readFrom_run htyped
  have hinner : (readOutputCommitment o.assetVersion fresh).run
      (typed ++ oc ++ o.commitmentSuffix) =
      .ok (o.typedOutput, o.outputCommitment) o.commitmentSuffix := by
    unfold readOutputCommitment
    rw [List.append_assoc, run_bind_of_ok (hread _),
      run_bind_of_ok (OutputCommitment.readFrom_run hr hoc)]
    rfl
  simp only [List.append_assoc]
  unfold readFrom
  rw [run_bind_of_ok (readVarint63_run hav), run_bind_of_ok (parseTypedOutput_run hfresh),
    run_bind_of_ok (readExtensibleString_run hinner hcommitment)]
  rw [run_bind_of_ok (readVarstr31_run hwitness)]
  rfl

/-- A transaction reads back as written, with `SerializedSize` the length of its encoding and the
commitment suffix of each spend or veto input twice. -/
theorem TxData.readFrom_of_writeTo {tx : TxData} (hr : tx.Readable computeAssetID)
    (h : tx.writeTo computeAssetID serRequired = .ok bs) :
    (TxData.readFrom computeAssetID).run (bs ++ rest) =
      .ok { tx with
        serializedSize := bs.length
        inputs := tx.inputs.map TxInput.doubleCommitmentSuffix } rest := by
  obtain ⟨hinputs, houtputs⟩ := hr
  simp only [writeTo, Except.bind_eq_ok, Except.pure_eq_ok] at h
  obtain ⟨version, hversion, timeRange, htimeRange, inputCount, hinputCount, inputs, hinputs',
    outputCount, houtputCount, outputs, houtputs', rfl⟩ := h
  simp only [List.append_assoc]
  unfold readFrom
  rw [run_bind_of_ok (run_get _), run_bind_of_ok (readFull_run (show [serRequired].length = 1 from rfl)),
    List.headD_cons, if_neg (by decide), run_bind_of_ok (readVarint63_run hversion),
    run_bind_of_ok (readVarint63_run htimeRange), run_bind_of_ok (readVarint31_run hinputCount),
    run_bind_of_ok (readRepeat_run (fun hr h => TxInput.readFrom_run hr h) hinputs hinputs' []),
    run_bind_of_ok (readVarint31_run houtputCount),
    run_bind_of_ok (readRepeat_run (g := id) (fun hr h => TxOutput.readFrom_run hr h) houtputs
      houtputs' []),
    run_bind_of_ok (run_get _)]
  simp only [List.nil_append, List.map_id, List.length_append, List.length_cons, List.length_nil]
  -- the bytes read are the encoding: everything but the rest
  congr 3
  omega

/-- An asset ID function for transactions without issuances. -/
def zeroAssetID : List UInt8 → Nat → List UInt8 → Hash := fun _ _ _ => Hash.zero

/-- A transaction with one spend, whose spend commitment has the one-byte suffix `[0]`. -/
def suffixSpendTx : TxData where
  version := 1
  serializedSize := 0
  timeRange := 0
  inputs := [{
    assetVersion := 1
    typedInput := some (.spend
      { spendCommitmentSuffix := [0]
        arguments := []
        spendCommitment := { (default : SpendCommitment) with vmVersion := 1 } })
    commitmentSuffix := []
    witnessSuffix := [] }]
  outputs := []

/-- Its 82-byte encoding, where the string of the spend commitment ends with the suffix twice. -/
def suffixSpendBytes : List UInt8 :=
  [7, 1, 0, 1, 1, 73, 1, 71] ++ List.replicate 66 0 ++ [1, 0, 0, 0, 0, 1, 0, 0]

theorem suffixSpendTx_readFrom :
    (TxData.readFrom zeroAssetID).run (suffixSpendBytes ++ []) =
      .ok { suffixSpendTx with
        serializedSize := suffixSpendBytes.length
        inputs := suffixSpendTx.inputs.map TxInput.doubleCommitmentSuffix } [] :=
  TxData.readFrom_of_writeTo (by decide) rfl

theorem suffixSpendTx_roundTrip_counterexample :
    suffixSpendTx.writeTo zeroAssetID serRequired = .ok suffixSpendBytes ∧
      ∃ tx, (TxData.readFrom zeroAssetID).run suffixSpendBytes = .ok tx [] ∧
        tx.inputs.map (fun t => t.typedInput.map TypedInput.spendSuffix) = [some [0, 0]] :=
  ⟨rfl, { suffixSpendTx with
    serializedSize := 82
    inputs := suffixSpendTx.inputs.map TxInput.doubleCommitmentSuffix }, rfl, rfl⟩

end RoundTrip

end KuskCore.Types
