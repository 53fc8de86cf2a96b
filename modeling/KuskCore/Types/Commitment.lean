import KuskCore.Encoding.Blockchain

/-!
# Hashes, asset amounts and output commitments on the wire

`protocol/bc/hash.go` and `asset.go` write a hash as its 32 bytes and an asset amount as its asset
ID and a varint amount. `protocol/bc/types` wraps the commitment of an output in two forms:
`OutputCommitment`, written inside a transaction output, and `SpendCommitment`, the same output
recalled inside the input that spends it, with its source.

Both are written only for asset version 1, and read back only with VM version 1.
`OutputCommitment` reads back as written (`OutputCommitment.readFrom_run`). `SpendCommitment`
writes its extensible string with `WriteExtensibleString`, which appends the suffix, from
`writeContents`, which appends the suffix too: it reads back with the suffix twice
(`SpendCommitment.readFrom_run`).
-/

namespace KuskCore.Types

open GoInt EStateM KuskCore.Blockchain

/-- `bc.Hash`: 32 bytes, which Go keeps as four big-endian `uint64`s. -/
structure Hash where
  bytes : List UInt8
  length_bytes : bytes.length = 32
  deriving DecidableEq

/-- Go's zero `Hash{}`. -/
def Hash.zero : Hash := ⟨List.replicate 32 0, List.length_replicate⟩

/-- The hash whose 32 bytes are all `b`, for the sample hashes of concrete runs. -/
def Hash.ofByte (b : UInt8) : Hash := ⟨List.replicate 32 b, List.length_replicate⟩

instance : Inhabited Hash := ⟨Hash.zero⟩

/-- `Hash.IsZero`. -/
def Hash.isZero (h : Hash) : Bool := h == Hash.zero

/-- `Hash.ReadFrom`: `io.ReadFull` of 32 bytes. -/
def readHash : Reader Hash := do
  let buf ← get
  if h : 32 ≤ buf.length then
    set (buf.drop 32)
    pure ⟨buf.take 32, by simp [h]⟩
  else throw (if buf.length = 0 then .eof else .unexpectedEOF)

/-- `bc.AssetAmount`, with the asset ID it points to. -/
structure AssetAmount where
  assetId : Hash
  amount : Nat
  deriving DecidableEq, Inhabited

/-- `AssetAmount.WriteTo`. -/
def AssetAmount.writeTo (a : AssetAmount) : Except CodecError (List UInt8) := do
  let amount ← writeVarint63 a.amount
  pure (a.assetId.bytes ++ amount)

/-- `AssetAmount.ReadFrom`. -/
def readAssetAmount : Reader AssetAmount := do
  let assetId ← readHash
  let amount ← readVarint63
  pure { assetId, amount }

section RoundTrip

variable {rest bs : List UInt8}

theorem readHash_run (h : Hash) : readHash.run (h.bytes ++ rest) = .ok h rest := by
  have hl := h.length_bytes
  unfold readHash
  rw [run_bind_of_ok (run_get _), dif_pos (by simp [hl])]
  simp only [List.drop_left' hl, List.take_left' hl]
  rfl

theorem readAssetAmount_run {a : AssetAmount} (h : a.writeTo = .ok bs) :
    readAssetAmount.run (bs ++ rest) = .ok a rest := by
  simp only [AssetAmount.writeTo, Except.bind_eq_ok, Except.pure_eq_ok] at h
  obtain ⟨amount, hamount, rfl⟩ := h
  rw [List.append_assoc]
  unfold readAssetAmount
  rw [run_bind_of_ok (readHash_run a.assetId), run_bind_of_ok (readVarint63_run hamount)]
  rfl

end RoundTrip

/-! ## Output commitments -/

/-- `OutputCommitment`. -/
structure OutputCommitment where
  assetAmount : AssetAmount
  vmVersion : Nat
  controlProgram : List UInt8
  stateData : List (List UInt8)
  deriving DecidableEq, Inhabited

/-- `OutputCommitment.writeTo`: the fields for asset version 1, nothing for any other. -/
def OutputCommitment.writeTo (oc : OutputCommitment) (assetVersion : Nat) :
    Except CodecError (List UInt8) :=
  if assetVersion = 1 then do
    let amount ← oc.assetAmount.writeTo
    let vmVersion ← writeVarint63 oc.vmVersion
    let program ← writeVarstr31 oc.controlProgram
    let state ← writeVarstrList oc.stateData
    pure (amount ++ vmVersion ++ program ++ state)
  else pure []

/-- `OutputCommitment.readFrom`, into a fresh commitment: for asset version 1 the fields, of which
the VM version must be 1. -/
def OutputCommitment.readFrom (assetVersion : Nat) : Reader OutputCommitment :=
  if assetVersion = 1 then do
    let assetAmount ← readAssetAmount
    let vmVersion ← readVarint63
    if vmVersion ≠ 1 then throw (.unrecognizedVMVersion vmVersion)
    let controlProgram ← readVarstr31
    let stateData ← readVarstrList
    pure { assetAmount, vmVersion, controlProgram, stateData }
  else pure default

/-- What an output commitment must be to read back as written: a VM version 1 commitment under
asset version 1, and the zero commitment under any other, which writes and reads nothing. -/
def OutputCommitment.Readable (oc : OutputCommitment) (assetVersion : Nat) : Prop :=
  if assetVersion = 1 then oc.vmVersion = 1 else oc = default

instance (oc : OutputCommitment) (assetVersion : Nat) : Decidable (oc.Readable assetVersion) :=
  inferInstanceAs (Decidable (if assetVersion = 1 then oc.vmVersion = 1 else oc = default))

theorem OutputCommitment.readFrom_run {oc : OutputCommitment} {assetVersion : Nat}
    {rest bs : List UInt8} (hr : oc.Readable assetVersion) (h : oc.writeTo assetVersion = .ok bs) :
    (OutputCommitment.readFrom assetVersion).run (bs ++ rest) = .ok oc rest := by
  unfold Readable at hr
  unfold writeTo at h
  unfold readFrom
  split
  · rename_i hav
    rw [if_pos hav] at h hr
    simp only [Except.bind_eq_ok, Except.pure_eq_ok] at h
    obtain ⟨amount, hamount, vmVersion, hvm, program, hprogram, state, hstate, rfl⟩ := h
    simp only [List.append_assoc]
    rw [run_bind_of_ok (readAssetAmount_run hamount), run_bind_of_ok (readVarint63_run hvm),
      if_neg (by simpa using hr), run_bind_of_ok (readVarstr31_run hprogram), run_bind_of_ok (readVarstrList_run hstate)]
    rfl
  · rename_i hav
    rw [if_neg hav] at h
    cases Iff.mp Except.pure_eq_ok h
    rw [if_neg hav] at hr
    rw [hr]
    rfl

/-! ## Spend commitments -/

/-- `SpendCommitment`: the spent output's commitment and where it comes from. -/
structure SpendCommitment where
  assetAmount : AssetAmount
  sourceID : Hash
  sourcePosition : Nat
  vmVersion : Nat
  controlProgram : List UInt8
  stateData : List (List UInt8)
  deriving DecidableEq, Inhabited

/-- `SpendCommitment.writeContents`: the fields for asset version 1, then the suffix. -/
def SpendCommitment.writeContents (sc : SpendCommitment) (suffix : List UInt8)
    (assetVersion : Nat) : Except CodecError (List UInt8) := do
  let fields ← if assetVersion = 1 then do
      let amount ← sc.assetAmount.writeTo
      let position ← writeVarint63 sc.sourcePosition
      let vmVersion ← writeVarint63 sc.vmVersion
      let program ← writeVarstr31 sc.controlProgram
      let state ← writeVarstrList sc.stateData
      pure (sc.sourceID.bytes ++ amount ++ position ++ vmVersion ++ program ++ state)
    else pure []
  pure (fields ++ suffix)

/-- `SpendCommitment.writeExtensibleString`: `WriteExtensibleString` of the suffix around
`writeContents`, which is handed the suffix as well. -/
def SpendCommitment.writeExtensibleString (sc : SpendCommitment) (suffix : List UInt8)
    (assetVersion : Nat) : Except CodecError (List UInt8) :=
  Blockchain.writeExtensibleString suffix (sc.writeContents suffix assetVersion)

/-- `SpendCommitment.readFrom`, into a fresh commitment, with the suffix left in its string. -/
def SpendCommitment.readFrom (assetVersion : Nat) : Reader (SpendCommitment × List UInt8) :=
  readExtensibleString (do
    if assetVersion = 1 then
      let sourceID ← readHash
      let assetAmount ← readAssetAmount
      let sourcePosition ← readVarint63
      let vmVersion ← readVarint63
      if vmVersion ≠ 1 then throw (.unrecognizedVMVersion vmVersion)
      let controlProgram ← readVarstr31
      let stateData ← readVarstrList
      pure { assetAmount, sourceID, sourcePosition, vmVersion, controlProgram, stateData }
    else pure default)

/-- A spend commitment of VM version 1, written under asset version 1, reads back with its suffix
written twice: once by `writeContents` and once by `WriteExtensibleString`. -/
theorem SpendCommitment.readFrom_run {sc : SpendCommitment} {suffix rest bs : List UInt8}
    (hv : sc.vmVersion = 1) (h : sc.writeExtensibleString suffix 1 = .ok bs) :
    (SpendCommitment.readFrom 1).run (bs ++ rest) = .ok (sc, suffix ++ suffix) rest := by
  unfold writeExtensibleString Blockchain.writeExtensibleString at h
  obtain ⟨contents, hc, h⟩ := Iff.mp Except.bind_eq_ok h
  unfold writeContents at hc
  rw [if_pos rfl] at hc
  simp only [Except.bind_eq_ok, Except.pure_eq_ok] at hc
  obtain ⟨amount, hamount, position, hpos, vmVersion, hvm, program, hprogram, state, hstate, _,
    rfl, rfl⟩ := hc
  refine readExtensibleString_run ?_ h
  rw [if_pos rfl]
  simp only [List.append_assoc]
  rw [run_bind_of_ok (readHash_run sc.sourceID), run_bind_of_ok (readAssetAmount_run hamount),
    run_bind_of_ok (readVarint63_run hpos), run_bind_of_ok (readVarint63_run hvm),
    if_neg (by simpa using hv), run_bind_of_ok (readVarstr31_run hprogram), run_bind_of_ok (readVarstrList_run hstate)]
  rfl

end KuskCore.Types
