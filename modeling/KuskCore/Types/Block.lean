import Mathlib
import KuskCore.Types.Transaction
import KuskCore.Casper.Checkpoint

/-!
# Blocks

`protocol/bc/types/block.go`, `block_header.go` and `sup_link.go`: a block is its header and its
transactions as decoded. An output's `Amount`, `AssetId` and `ControlProgram` are the fields Go
promotes from its `OutputCommitment`.

A header is written as its serialization flags, then, unless the flags ask for the transactions
alone, its fields, with the commitment, the witness and the sup links each in an extensible
string. A sup link has one signature slot for each of `MaxNumOfValidators` validators, a Go
array, here a vector of that length. The header reads back as written, with the flags
(`BlockHeader.readFrom_of_written`), from the round trips of its parts (`readSupLinks_run`); the
flags `SerBlockTransactions` write no header, and read back the zero header.
-/

namespace KuskCore.Types

open KuskCore.Blockchain EStateM

/-- `output.Amount`. -/
def TxOutput.amount (o : TxOutput) : Nat := o.outputCommitment.assetAmount.amount

/-- `output.AssetId`. -/
def TxOutput.assetId (o : TxOutput) : Hash := o.outputCommitment.assetAmount.assetId

/-- `output.ControlProgram`. -/
def TxOutput.controlProgram (o : TxOutput) : List UInt8 := o.outputCommitment.controlProgram

/-- Only an original output has the original output type. -/
theorem TypedOutput.outputType_eq_original {t : TypedOutput} :
    t.outputType = originalOutputType ↔ t = .original := by
  cases t <;> simp [TypedOutput.outputType, originalOutputType, voteOutputType]

/-- `SupLink`: the source checkpoint's height and hash, and a signature slot for each
validator. -/
structure SupLink where
  sourceHeight : Nat
  sourceHash : Hash
  signatures : List.Vector (List UInt8) Protocol.maxNumOfValidators
  deriving DecidableEq

/-- `BlockHeader`, with the transactions' Merkle root of its `BlockCommitment`. -/
structure BlockHeader where
  version : Nat
  height : Nat
  previousBlockHash : Hash
  timestamp : Nat
  blockWitness : List UInt8
  supLinks : List SupLink
  transactionsMerkleRoot : Hash
  deriving DecidableEq

/-- Go's zero `BlockHeader{}`. -/
def BlockHeader.zero : BlockHeader := ⟨0, 0, Hash.zero, 0, [], [], Hash.zero⟩

/-- `Block`. -/
structure Block where
  header : BlockHeader
  transactions : List TxData
  deriving DecidableEq

/-! ## The header's encoding -/

def serBlockHeader : UInt8 := 1
def serBlockTransactions : UInt8 := 2
def serBlockFull : UInt8 := 3

/-- `SupLink.writeTo`. -/
def SupLink.writeTo (s : SupLink) : Except CodecError (List UInt8) := do
  let sourceHeight ← writeVarint63 s.sourceHeight
  let signatures ← s.signatures.toList.mapM writeVarstr31
  pure (sourceHeight ++ s.sourceHash.bytes ++ signatures.flatten)

/-- The loop of `SupLink.readFrom` over `n` signature slots. -/
def readSignatures : (n : Nat) → Reader (List.Vector (List UInt8) n)
  | 0 => pure List.Vector.nil
  | n + 1 => do
    let signature ← readVarstr31
    let rest ← readSignatures n
    pure (List.Vector.cons signature rest)

/-- `SupLink.readFrom`, into a fresh sup link. -/
def SupLink.readFrom : Reader SupLink := do
  let sourceHeight ← readVarint63
  let sourceHash ← readHash
  let signatures ← readSignatures Protocol.maxNumOfValidators
  pure { sourceHeight, sourceHash, signatures }

/-- `SupLinks.writeTo`. -/
def writeSupLinks (supLinks : List SupLink) : Except CodecError (List UInt8) := do
  let size ← writeVarint31 supLinks.length
  let links ← supLinks.mapM SupLink.writeTo
  pure (size ++ links.flatten)

/-- `SupLinks.readFrom`. -/
def readSupLinks : Reader (List SupLink) := do
  let size ← readVarint31
  readRepeat SupLink.readFrom size []

/-- `BlockHeader.writeTo`: the flags, and the fields unless the flags are
`SerBlockTransactions`. -/
def BlockHeader.writeTo (bh : BlockHeader) (serflags : UInt8) : Except CodecError (List UInt8) :=
  if serflags = serBlockTransactions then .ok [serflags]
  else do
    let version ← writeVarint63 bh.version
    let height ← writeVarint63 bh.height
    let timestamp ← writeVarint63 bh.timestamp
    let commitment ← writeExtensibleString [] (.ok bh.transactionsMerkleRoot.bytes)
    let witness ← writeExtensibleString [] (writeVarstr31 bh.blockWitness)
    let supLinks ← writeExtensibleString [] (writeSupLinks bh.supLinks)
    pure ([serflags] ++ version ++ height ++ bh.previousBlockHash.bytes ++ timestamp ++
      commitment ++ witness ++ supLinks)

/-- `BlockHeader.readFrom`, into a fresh header: the flags and the header. The flags
`SerBlockTransactions` stop before the fields, and leave the header zero; the suffixes of the
extensible strings are dropped. -/
def BlockHeader.readFrom : Reader (UInt8 × BlockHeader) := do
  let serflags ← readFull 1
  let serflag := serflags.headD 0
  if serflag = serBlockTransactions then pure (serflag, BlockHeader.zero)
  else if serflag ≠ serBlockHeader ∧ serflag ≠ serBlockFull then
    throw (.unsupportedSerflags serflag)
  else do
    let version ← readVarint63
    let height ← readVarint63
    let previousBlockHash ← readHash
    let timestamp ← readVarint63
    let (transactionsMerkleRoot, _) ← readExtensibleString readHash
    let (blockWitness, _) ← readExtensibleString readVarstr31
    let (supLinks, _) ← readExtensibleString readSupLinks
    pure (serflag,
      { version, height, previousBlockHash, timestamp, blockWitness, supLinks,
        transactionsMerkleRoot })

section RoundTrip

variable {rest bs : List UInt8}

/-- What an extensible string wrote: the string its writer wrote, followed by the suffix. -/
theorem writeExtensibleString_of_ok {suffix : List UInt8} {f : Except CodecError (List UInt8)}
    (h : writeExtensibleString suffix f = .ok bs) :
    ∃ c, f = .ok c ∧ writeExtensibleString suffix (.ok c) = .ok bs := by
  obtain ⟨c, hc, h⟩ := Iff.mp Except.bind_eq_ok h
  exact ⟨c, hc, h⟩

theorem readSignatures_run : ∀ {n : Nat} (v : List.Vector (List UInt8) n)
    {chunks : List (List UInt8)}, v.toList.mapM writeVarstr31 = .ok chunks →
      (readSignatures n).run (chunks.flatten ++ rest) = .ok v rest
  | 0, v, chunks, h => by
    rw [List.Vector.eq_nil v, List.Vector.toList_nil] at h
    cases Iff.mp Except.pure_eq_ok h
    rw [List.Vector.eq_nil v]
    rfl
  | n + 1, v, chunks, h => by
    obtain ⟨a, as, rfl⟩ := List.Vector.exists_eq_cons v
    rw [List.Vector.toList_cons] at h
    simp only [List.mapM_cons, Except.bind_eq_ok, Except.pure_eq_ok] at h
    obtain ⟨c, hc, cs, hcs, rfl⟩ := h
    rw [List.flatten_cons, List.append_assoc, readSignatures, run_bind_of_ok (readVarstr31_run hc),
      run_bind_of_ok (readSignatures_run as hcs)]
    rfl

theorem SupLink.readFrom_run {s : SupLink} (h : s.writeTo = .ok bs) :
    SupLink.readFrom.run (bs ++ rest) = .ok s rest := by
  simp only [writeTo, Except.bind_eq_ok, Except.pure_eq_ok] at h
  obtain ⟨height, hheight, signatures, hsignatures, rfl⟩ := h
  simp only [List.append_assoc]
  unfold readFrom
  rw [run_bind_of_ok (readVarint63_run hheight), run_bind_of_ok (readHash_run _),
    run_bind_of_ok (readSignatures_run s.signatures hsignatures)]
  rfl

theorem readSupLinks_run {supLinks : List SupLink} (h : writeSupLinks supLinks = .ok bs) :
    readSupLinks.run (bs ++ rest) = .ok supLinks rest := by
  simp only [writeSupLinks, Except.bind_eq_ok, Except.pure_eq_ok] at h
  obtain ⟨size, hsize, links, hlinks, rfl⟩ := h
  rw [List.append_assoc]
  unfold readSupLinks
  rw [run_bind_of_ok (readVarint31_run hsize)]
  simpa using readRepeat_run (P := fun _ => True) (g := id)
    (fun _ h => SupLink.readFrom_run h) (fun _ _ => trivial) hlinks []

/-- A header written with known flags reads back as written, with its flags, except that the
flags `SerBlockTransactions` write no header and read back the zero one. -/
theorem BlockHeader.readFrom_of_written {bh : BlockHeader} {serflags : UInt8}
    (hflags : serflags = serBlockHeader ∨ serflags = serBlockTransactions ∨
      serflags = serBlockFull)
    (h : bh.writeTo serflags = .ok bs) :
    BlockHeader.readFrom.run (bs ++ rest) =
      .ok (serflags, if serflags = serBlockTransactions then BlockHeader.zero else bh) rest := by
  unfold writeTo at h
  by_cases hne : serflags = serBlockTransactions
  · rw [if_pos hne] at h
    cases h
    unfold readFrom
    rw [run_bind_of_ok (readFull_run (show [serflags].length = 1 from rfl)), List.headD_cons,
      if_pos hne, if_pos hne]
    rfl
  have hknown : ¬ (serflags ≠ serBlockHeader ∧ serflags ≠ serBlockFull) := by
    rcases hflags with rfl | rfl | rfl
    · decide
    · exact absurd rfl hne
    · decide
  rw [if_neg hne] at h
  simp only [Except.bind_eq_ok, Except.pure_eq_ok] at h
  obtain ⟨version, hversion, height, hheight, timestamp, htimestamp, commitment, hcommitment,
    witness, hwitness, supLinks, hsupLinks, rfl⟩ := h
  obtain ⟨wbuf, hwbuf, hwitness⟩ := writeExtensibleString_of_ok hwitness
  obtain ⟨sbuf, hsbuf, hsupLinks⟩ := writeExtensibleString_of_ok hsupLinks
  simp only [List.append_assoc]
  unfold readFrom
  rw [run_bind_of_ok (readFull_run (show [serflags].length = 1 from rfl)), List.headD_cons,
    if_neg hne, if_neg hknown, if_neg hne]
  rw [run_bind_of_ok (readVarint63_run hversion), run_bind_of_ok (readVarint63_run hheight),
    run_bind_of_ok (readHash_run _), run_bind_of_ok (readVarint63_run htimestamp),
    run_bind_of_ok (readExtensibleString_run (readHash_run _) hcommitment)]
  dsimp only
  rw [run_bind_of_ok (readExtensibleString_run (readVarstr31_run hwbuf) hwitness)]
  dsimp only
  rw [run_bind_of_ok (readExtensibleString_run (readSupLinks_run hsbuf) hsupLinks)]
  rfl

/-- A header of height 1 with a witness and one sup link, whose signature slots are empty. -/
def sampleBlockHeader : BlockHeader :=
  { version := 1, height := 1, previousBlockHash := Hash.zero, timestamp := 6000
    blockWitness := [1, 2], supLinks := [⟨0, Hash.zero, List.Vector.replicate _ []⟩]
    transactionsMerkleRoot := Hash.zero }

set_option maxRecDepth 4000 in
theorem sampleBlockHeader_roundTrip :
    ∃ bs, sampleBlockHeader.writeTo serBlockFull = .ok bs ∧
      BlockHeader.readFrom.run (bs ++ []) = .ok (serBlockFull, sampleBlockHeader) [] := by
  obtain ⟨bs, hw⟩ : ∃ bs, sampleBlockHeader.writeTo serBlockFull = .ok bs := ⟨_, rfl⟩
  refine ⟨bs, hw, ?_⟩
  rw [BlockHeader.readFrom_of_written (Or.inr (Or.inr rfl)) hw]
  rfl

end RoundTrip

end KuskCore.Types
