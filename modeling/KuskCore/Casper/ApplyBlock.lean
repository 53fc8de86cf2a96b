import KuskCore.Casper.Verification

/-!
# Applying blocks

`protocol/casper/apply_block.go`: a block grows the checkpoint of its epoch, or starts the next
one as a child of the checkpoint that ended it; the node's own vote, when it is a validator, joins
the block's sup links; and the votes of the block's sup links are checked and recorded like those
of `AuthVerification`, except that the votes of one link are checked together, before any is
recorded.

`checkpointNodeByHash` finds the checkpoint of the previous block in the tree. Go also rebuilds a
checkpoint for a block that forks inside an epoch from the stored blocks; such a block is refused
here (`notFound`). The votes of a link are taken in the order of the effective validators, where
Go takes them in the order of a map.
-/

namespace KuskCore.Protocol

open EStateM

/-- What Casper runs with, and the node's own validator key: `sign` signs the hashes of a source
and a target with it. -/
structure NodeEnv extends CasperEnv where
  myPubKey : String
  sign : Nat → Nat → List UInt8

section ApplyBlock

variable (env : NodeEnv)

/-- `lastJustifiedCheckpoint`: the nearest justified ancestor, following parents at most `fuel`
times. -/
def lastJustifiedCheckpoint (s : Casper) : Nat → Checkpoint → Option Checkpoint
  | 0, _ => none
  | fuel + 1, branch =>
    match s.parent branch with
    | none => none
    | some parent =>
      if parent.status = .justified then some parent
      else lastJustifiedCheckpoint s fuel parent

/-- `checkpointNodeByHash`, on the tree. -/
def checkpointNodeByHash (h : Nat) : CasperM Checkpoint := do
  match (← get).nodeByHash h with
  | some node => pure node
  | none => throw .notFound

/-- `applyBlockToCheckpoint`: the block grows the checkpoint of its previous block, or a new child
of it when the block starts an epoch. Returns the checkpoint. -/
def applyBlockToCheckpoint (block : Block) : CasperM Checkpoint := do
  let node ← checkpointNodeByHash block.previousBlockHash
  if block.height % env.config.blocksOfEpoch = 1 then
    let child := newCheckpoint node
    modify fun s => { s with checkpoints := s.checkpoints ++ [child] }
    match child.increase env.config block with
    | .ok c =>
      modify fun s => { s with checkpoints := s.checkpoints.dropLast ++ [c] }
      pure c
    | .error e => throw e
  else
    match node.increase env.config block with
    | .ok c =>
      modify fun s => { s with
        checkpoints := s.checkpoints.map fun c' => if c'.hash = node.hash then c else c' }
      pure c
    | .error e => throw e

/-- `myVerification`: the node's vote for the target from its last justified ancestor, when the
node is one of its validators and has not voted for it yet, and the vote passes the checks. -/
def myVerification (target : Checkpoint) : CasperM (Option Verification) := do
  let s ← get
  if target.status = .growing then return none
  match lastJustifiedCheckpoint s s.checkpoints.length target with
  | none => pure none
  | some source =>
    let msg : ValidCasperSignMsg := ⟨0, 0, [], env.myPubKey⟩
    match (convertVerification env.toCasperEnv source target msg).run s with
    | .error _ _ => pure none
    | .ok v _ =>
      if target.containsVerification v.order none then return none
      let v := { v with signature := env.sign v.sourceHash v.targetHash }
      match (verifyVerification env.toCasperEnv v).run s with
      | .error _ _ => pure none
      | .ok _ _ => pure (some v)

/-- `applyMyVerification`: the block's sup links, with the node's own vote. -/
def applyMyVerification (target : Checkpoint) (block : Block) : CasperM Block := do
  match ← myVerification env target with
  | none => pure block
  | some v =>
    pure { block with
      supLinks := (addSupLink block.supLinks v.sourceHeight v.sourceHash v.signature v.order).1 }

/-- `supLinkToVerifications`: a vote for each effective validator of the target's parent that
signed the link. -/
def supLinkToVerifications (source target : Checkpoint) (supLink : SupLink) :
    CasperM (List Verification) := do
  let parent ← getParent target
  pure ((parent.effectiveValidators env.config).filterMap fun validator =>
    let signature := supLink.signature validator.order
    if signature.length ≠ 0 then
      some
        { sourceHash := source.hash
          targetHash := target.hash
          sourceHeight := source.height
          targetHeight := target.height
          signature
          pubKey := validator.pubKey
          order := validator.order }
    else none)

/-- `validVerificationsFromSupLink`: the link's votes that pass the checks, each checked on the
state before any is recorded. -/
def validVerificationsFromSupLink (target : Checkpoint) (supLink : SupLink) :
    CasperM (List Verification) := do
  let source ← getCheckpoint supLink.sourceHash
  if source.height ≠ supLink.sourceHeight then throw .incorrectSourceHeight
  let vs ← supLinkToVerifications env source target supLink
  let s ← get
  pure (vs.filter fun v => match (verifyVerification env.toCasperEnv v).run s with
    | .ok _ _ => true
    | .error _ _ => false)

/-- The loop of `applySupLinks`: the votes of each link in turn. -/
def applySupLinksLoop (target : Checkpoint) : List SupLink → CasperM Unit
  | [] => pure ()
  | supLink :: supLinks => do
    let vs ← validVerificationsFromSupLink env target supLink
    addVerificationToCheckpoint env.toCasperEnv target vs
    -- the tree node Go holds is the checkpoint with the target's hash, as it is now
    let target ← getCheckpoint target.hash
    applySupLinksLoop target supLinks

/-- `applySupLinks`: nothing for a growing target. -/
def applySupLinks (target : Checkpoint) (supLinks : List SupLink) : CasperM Unit :=
  if target.status = .growing then pure () else applySupLinksLoop env target supLinks

/-- `ApplyBlock`: nothing for a block whose checkpoint is already a node. -/
def ApplyBlock (block : Block) : CasperM Unit := do
  if ((← get).nodeByHash block.hash).isSome then return
  let target ← applyBlockToCheckpoint env block
  let block ← applyMyVerification env target block
  applySupLinks env target block.supLinks

end ApplyBlock

end KuskCore.Protocol
