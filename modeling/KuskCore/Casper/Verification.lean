import KuskCore.Casper.Checkpoint
import KuskCore.StateRun

/-!
# Verifications

`protocol/casper/verfication.go` and `auth_verification.go`: a validator's vote for a sup link
from a source checkpoint to a target checkpoint, its checks, and how it is recorded.

Casper keeps its checkpoints twice: in the store, and as the nodes of an in-memory tree under the
last finalized checkpoint. Here they are kept once, as the store, and the tree is the checkpoints
that descend from `root`; the store returns the sup links that the tree's nodes hold. A status set
on one copy in Go is set on the other in the same call (`setJustified` on the tree node, which is
saved; `setFinalized` on the store's copy and on the node with its hash), so one copy suffices.

A vote is checked against two rules (`verifyVerification`): no two votes of a validator for
targets of the same height, and no vote inside the span of another. Both checks pass over the
vote's own target: `verifySameHeight` skips the checkpoint with the target's hash and
`verifySpanHeight` every checkpoint at the target's height.
-/

namespace KuskCore.Protocol

open EStateM

/-- `ValidCasperSignMsg`. -/
structure ValidCasperSignMsg where
  sourceHash : Nat
  targetHash : Nat
  signature : List UInt8
  pubKey : String
  deriving DecidableEq

/-- `verification`. -/
structure Verification where
  sourceHash : Nat
  targetHash : Nat
  sourceHeight : Nat
  targetHeight : Nat
  signature : List UInt8
  pubKey : String
  order : Nat
  deriving DecidableEq

/-- What Casper runs with: its configuration, and `verifySignature`, the check of a validator's
signature of the hash of a source and a target hash. -/
structure CasperEnv where
  config : CasperConfig
  verifySignature : String → Nat → Nat → List UInt8 → Bool

/-- The state of `Casper`: the checkpoints of the store, the hash of the root of the tree, and the
verifications waiting for their target (`verificationCache`). -/
structure Casper where
  checkpoints : List Checkpoint
  root : Nat
  verificationCache : List ValidCasperSignMsg
  deriving DecidableEq

abbrev CasperM := EStateM CasperError Casper

/-- Whether the checkpoint `h` descends from `root`, following parent hashes at most `fuel`
times. -/
def descendsFrom (checkpoints : List Checkpoint) (root : Nat) : Nat → Nat → Bool
  | 0, _ => false
  | fuel + 1, h =>
    h == root ||
      match checkpoints.find? fun c => c.hash == h with
      | some c => descendsFrom checkpoints root fuel c.parentHash
      | none => false

/-- The nodes of the in-memory tree. -/
def Casper.treeNodes (s : Casper) : List Checkpoint :=
  s.checkpoints.filter fun c => descendsFrom s.checkpoints s.root s.checkpoints.length c.hash

/-- `findOnlyOne`: a node of the tree with the property. -/
def Casper.findOnlyOne (s : Casper) (p : Checkpoint → Bool) : Option Checkpoint :=
  s.treeNodes.find? p

/-- `nodeByHash`. -/
def Casper.nodeByHash (s : Casper) (h : Nat) : Option Checkpoint :=
  s.findOnlyOne fun c => c.hash == h

/-- The checkpoint with the hash, as the store finds it. -/
def Casper.find (s : Casper) (h : Nat) : Option Checkpoint := s.checkpoints.find? fun c => c.hash == h

/-- A node's `Parent`: nil for the root. -/
def Casper.parent (s : Casper) (c : Checkpoint) : Option Checkpoint :=
  if c.hash = s.root then none else s.find c.parentHash

/-- The checkpoint with the hash replaced by `c`. -/
def Casper.putCheckpoint (s : Casper) (c : Checkpoint) : Casper :=
  { s with checkpoints := s.checkpoints.map fun c' => if c'.hash = c.hash then c else c' }

/-- The checkpoint with the hash `h` given the status. -/
def Casper.setStatus (s : Casper) (h : Nat) (status : CheckpointStatus) : Casper :=
  { s with checkpoints := s.checkpoints.map fun c => if c.hash = h then { c with status } else c }

/-- `store.GetCheckpoint`. -/
def getCheckpoint (h : Nat) : CasperM Checkpoint := do
  match (← get).find h with
  | some c => pure c
  | none => throw .notFound

/-- `Parent`, which Go dereferences: a panic at the root. -/
def getParent (c : Checkpoint) : CasperM Checkpoint := do
  match (← get).parent c with
  | some p => pure p
  | none => throw .panic

/-- `verificationCacheKey` and `Add`: the message replaces one for the same target and key. -/
def cacheVerification (cache : List ValidCasperSignMsg) (msg : ValidCasperSignMsg) :
    List ValidCasperSignMsg :=
  cache.filter (fun m => !(m.targetHash == msg.targetHash && m.pubKey == msg.pubKey)) ++ [msg]

section Verify

variable (env : CasperEnv)

/-- `convertVerification`: the message's key must be an effective validator of the target's
parent, whose order the verification takes. -/
def convertVerification (source target : Checkpoint) (msg : ValidCasperSignMsg) :
    CasperM Verification := do
  let parent ← getParent target
  match findValidator (parent.effectiveValidators env.config) msg.pubKey with
  | none => throw .pubKeyIsNotValidator
  | some validator =>
    pure
      { sourceHash := source.hash
        targetHash := target.hash
        sourceHeight := source.height
        targetHeight := target.height
        signature := msg.signature
        pubKey := msg.pubKey
        order := validator.order }

/-- `valid`: both ends at the end of an epoch, the source below the target, and the signature. -/
def Verification.valid (v : Verification) : CasperM Unit := do
  let blocksOfEpoch := env.config.blocksOfEpoch
  if v.sourceHeight % blocksOfEpoch ≠ 0 ∨ v.targetHeight % blocksOfEpoch ≠ 0 then
    throw .voteToGrowingCheckpoint
  if v.sourceHeight ≥ v.targetHeight then throw .voteToSameCheckpoint
  if !env.verifySignature v.pubKey v.sourceHash v.targetHash v.signature then
    throw .verifySignature

/-- The validator has signed a link to `c` from a source it may not vote from with `v`: below
`v`'s source when `c` is above `v`'s target, above it when below. -/
def SpansVerification (v : Verification) (c : Checkpoint) (s : SupLink) : Prop :=
  (s.signature v.order).length ≠ 0 ∧
    (c.height < v.targetHeight ∧ s.sourceHeight > v.sourceHeight ∨
      c.height > v.targetHeight ∧ s.sourceHeight < v.sourceHeight)

instance (v : Verification) (c : Checkpoint) (s : SupLink) :
    Decidable (SpansVerification v c s) :=
  inferInstanceAs (Decidable ((s.signature v.order).length ≠ 0 ∧
    (c.height < v.targetHeight ∧ s.sourceHeight > v.sourceHeight ∨
      c.height > v.targetHeight ∧ s.sourceHeight < v.sourceHeight)))

/-- `verifySameHeight`: no other checkpoint of the target's height has a link the validator
signed. -/
def verifySameHeight (v : Verification) : CasperM Unit := do
  let checkpoints := (← get).checkpoints.filter fun c => c.height == v.targetHeight
  if checkpoints.any (fun c => c.supLinks.any fun s =>
      (s.signature v.order).length != 0 && c.hash != v.targetHash) then
    throw .sameHeightInVerification

/-- `verifySpanHeight`: no node of the tree off the target's height has a link the validator
signed across the vote. -/
def verifySpanHeight (v : Verification) : CasperM Unit := do
  let s ← get
  if (s.findOnlyOne fun c =>
      c.height != v.targetHeight && c.supLinks.any fun sl => decide (SpansVerification v c sl)).isSome then
    throw .spanHeightInVerification

/-- `verifyVerification`. -/
def verifyVerification (v : Verification) : CasperM Unit := do
  v.valid env
  verifySameHeight v
  verifySpanHeight v

/-- The state `setFinalized` leaves: the checkpoint finalized, and the root of the tree when it is
one of its nodes. -/
def Casper.finalize (s : Casper) (h : Nat) : Casper :=
  let s' := s.setStatus h .finalized
  if (s.nodeByHash h).isSome then { s' with root := h } else s'

/-- `setFinalized`. -/
def setFinalized (checkpoint : Checkpoint) : CasperM Unit :=
  modify fun s => s.finalize checkpoint.hash

/-- `setJustified`: the target is justified, and the source finalized when the target is its
direct child. Returns the target. -/
def setJustified (source target : Checkpoint) : CasperM Checkpoint := do
  let target := { target with status := .justified }
  modify fun s => s.putCheckpoint target
  if target.parentHash = source.hash then setFinalized source
  pure target

/-- The loop of `addVerificationToCheckpoint`: each vote signs its link to the target, which is
justified when it is unjustified, the link has a majority and the source is not finalized. -/
def addVerifications (validatorSize : Nat) : Checkpoint → List Verification → CasperM Unit
  | _, [] => pure ()
  | target, v :: vs => do
    let source ← getCheckpoint v.sourceHash
    let (target, supLink) := target.addVerification v.sourceHash v.sourceHeight v.order v.signature
    modify fun s => s.putCheckpoint target
    if target.status = .unjustified ∧ supLink.isMajority validatorSize ∧
        source.status ≠ .finalized then
      let target ← setJustified source target
      addVerifications validatorSize target vs
    else addVerifications validatorSize target vs

/-- `addVerificationToCheckpoint`, with the effective validators of the target's parent. -/
def addVerificationToCheckpoint (target : Checkpoint) (verifications : List Verification) :
    CasperM Unit := do
  let parent ← getParent target
  addVerifications (parent.effectiveValidators env.config).length target verifications

/-- `authVerification`; posting the message and saving the store change nothing here. -/
def authVerification (v : Verification) (target : Checkpoint) : CasperM Unit := do
  verifyVerification env v
  addVerificationToCheckpoint env target [v]

/-- `AuthVerification`: a vote for a target outside the tree waits in the cache; one the target
already holds from the same source is ignored. -/
def AuthVerification (msg : ValidCasperSignMsg) : CasperM Unit := do
  match (← get).nodeByHash msg.targetHash with
  | none => modify fun s => { s with verificationCache := cacheVerification s.verificationCache msg }
  | some target =>
    let source ← getCheckpoint msg.sourceHash
    let v ← convertVerification env source target msg
    if target.containsVerification v.order (some v.sourceHash) then pure ()
    else authVerification env v target

/-- `authCachedMsg`: a cached vote, taken out of the cache, checked against its target without
`ContainsVerification`. -/
def authCachedMsg (msg : ValidCasperSignMsg) : CasperM Unit := do
  modify fun s => { s with verificationCache := s.verificationCache.erase msg }
  let source ← getCheckpoint msg.sourceHash
  match (← get).nodeByHash msg.targetHash with
  | none => throw .notFound
  | some target =>
    let v ← convertVerification env source target msg
    authVerification env v target

end Verify

end KuskCore.Protocol
