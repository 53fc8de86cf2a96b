import Mathlib
import KuskCore.Types.Transaction

/-!
# Checkpoints

`protocol/state/checkpoint.go` and the sup links of `protocol/bc/types/sup_link.go`. A checkpoint
is the last block of an epoch, with its status in Casper, the votes of its validators and the sup
links that point to it: one per source checkpoint, with a signature slot per validator.

Hashes are numbers here, compared only for equality. A checkpoint's `Rewards` are not modelled;
`applyValidatorReward` is only its index of the first output of the first transaction, which
panics on a block without one.

The effective validators of a checkpoint are those with at least `MinValidatorVoteNum` votes, most
votes first and then the greater public key, at most `MaxNumOfValidators` of them, or the
federation when there are none (`effectiveValidators_eq_federation`).
-/

namespace KuskCore.Protocol

open KuskCore.Types

/-- How Casper fails: its errors, a missing block or checkpoint in the store, and Go's runtime
panics (a nil parent, an index out of range). -/
inductive CasperError where
  | pubKeyIsNotValidator
  | voteToGrowingCheckpoint
  | voteToSameCheckpoint
  | verifySignature
  | sameHeightInVerification
  | spanHeightInVerification
  | increaseCheckpoint
  | incorrectSourceHeight
  | previousRoundCheckpoint
  | notFound
  | panic
  deriving DecidableEq, Repr

/-- `CheckpointStatus`. -/
inductive CheckpointStatus where
  | growing
  | unjustified
  | justified
  | finalized
  deriving DecidableEq, Repr

/-- The part of `CasperConfig` that Casper reads; an epoch has at least one block. -/
structure CasperConfig where
  blocksOfEpoch : Nat
  minValidatorVoteNum : Nat
  federationXpubs : List String
  blocksOfEpoch_pos : 0 < blocksOfEpoch

/-- The one federation key of `MainNetParams`. -/
def mainNetFederationXpub : String :=
  "51f6a534970d739c4cad0204ff6f331f1ba3e3783fe424e1165bd7d2559ed69372e3d64ca8d34ef644e5a0ba97c97c4408049965923970adfe1f81e46198b920"

/-- `MainNetParams.CasperConfig`. -/
def mainNetCasperConfig : CasperConfig where
  blocksOfEpoch := 10
  minValidatorVoteNum := 300000000000000
  federationXpubs := [mainNetFederationXpub]
  blocksOfEpoch_pos := by decide

def maxNumOfValidators : Nat := 100

/-! ## Sup links -/

/-- `SupLink`: a signature slot for each validator order, empty when unsigned. -/
structure SupLink where
  sourceHeight : Nat
  sourceHash : Nat
  signatures : List (List UInt8)
  length_signatures : signatures.length = maxNumOfValidators
  deriving DecidableEq

/-- A new link, with no signature. -/
def SupLink.empty (sourceHeight sourceHash : Nat) : SupLink :=
  ⟨sourceHeight, sourceHash, List.replicate maxNumOfValidators [], List.length_replicate⟩

/-- `Signatures[order]`. -/
def SupLink.signature (s : SupLink) (order : Nat) : List UInt8 := s.signatures.getD order []

/-- `Signatures[order] = signature`. -/
def SupLink.setSignature (s : SupLink) (order : Nat) (signature : List UInt8) : SupLink :=
  ⟨s.sourceHeight, s.sourceHash, s.signatures.set order signature,
    by rw [List.length_set, s.length_signatures]⟩

/-- `IsMajority`: more than two thirds of the validators have signed. -/
def SupLink.isMajority (s : SupLink) (numOfValidators : Nat) : Bool :=
  s.signatures.countP (fun signature => signature.length > 0) > numOfValidators * 2 / 3

/-- The loop of `AddVerification` and `AddSupLink`: the first link from the source gets the
signature; `none` when there is no such link. -/
def signSupLinks (sourceHash order : Nat) (signature : List UInt8) :
    List SupLink → Option (List SupLink × SupLink)
  | [] => none
  | s :: rest =>
    if s.sourceHash = sourceHash then
      let s' := s.setSignature order signature
      some (s' :: rest, s')
    else (signSupLinks sourceHash order signature rest).map fun (l, s') => (s :: l, s')

/-- `SupLinks.AddSupLink`, and `AddVerification` on the links of a checkpoint: sign the link from
the source, or append a new one. Returns the links and the link signed. -/
def addSupLink (supLinks : List SupLink) (sourceHeight sourceHash : Nat)
    (signature : List UInt8) (order : Nat) : List SupLink × SupLink :=
  match signSupLinks sourceHash order signature supLinks with
  | some r => r
  | none =>
    let s := (SupLink.empty sourceHeight sourceHash).setSignature order signature
    (supLinks ++ [s], s)

/-! ## Checkpoints -/

/-- `Validator`. -/
structure Validator where
  pubKey : String
  order : Nat
  voteNum : Nat
  deriving DecidableEq, Repr

/-- `types.Block`, with what Casper reads of it; `hash` is `block.Hash()`. -/
structure Block where
  height : Nat
  hash : Nat
  previousBlockHash : Nat
  timestamp : Nat
  supLinks : List SupLink
  transactions : List TxData
  deriving DecidableEq

/-- `Checkpoint`; `votes` is the map from public keys to votes. -/
structure Checkpoint where
  height : Nat
  hash : Nat
  parentHash : Nat
  timestamp : Nat
  status : CheckpointStatus
  votes : List (String × Nat)
  supLinks : List SupLink
  deriving DecidableEq

/-- `Votes[pubKey]`, zero when absent. -/
def voteOf (votes : List (String × Nat)) (pubKey : String) : Nat := (votes.lookup pubKey).getD 0

/-- `Votes[pubKey] = n`. -/
def setVote (votes : List (String × Nat)) (pubKey : String) (n : Nat) : List (String × Nat) :=
  (votes.filter fun e => e.1 != pubKey) ++ [(pubKey, n)]

/-- `delete(Votes, pubKey)`. -/
def deleteVote (votes : List (String × Nat)) (pubKey : String) : List (String × Nat) :=
  votes.filter fun e => e.1 != pubKey

/-- A lowercase hex digit. -/
def hexDigit (n : Nat) : Char := if n < 10 then Char.ofNat (48 + n) else Char.ofNat (87 + n)

/-- `hex.EncodeToString`. -/
def hexString (bs : List UInt8) : String :=
  String.ofList (bs.flatMap fun b => [hexDigit (b.toNat / 16), hexDigit (b.toNat % 16)])

/-- `NewCheckpoint`: a growing child with the parent's non-zero votes. -/
def newCheckpoint (parent : Checkpoint) : Checkpoint where
  height := parent.height
  hash := parent.hash
  parentHash := parent.hash
  timestamp := parent.timestamp
  status := .growing
  votes := parent.votes.filter fun e => e.2 != 0
  supLinks := []

/-- `AddVerification`: the checkpoint with the link signed, and the link. -/
def Checkpoint.addVerification (c : Checkpoint) (sourceHash sourceHeight order : Nat)
    (signature : List UInt8) : Checkpoint × SupLink :=
  let r := addSupLink c.supLinks sourceHeight sourceHash signature order
  ({ c with supLinks := r.1 }, r.2)

/-- `ContainsVerification`: a link signed by the validator, from the source when one is given. -/
def Checkpoint.containsVerification (c : Checkpoint) (order : Nat) (sourceHash : Option Nat) :
    Bool :=
  c.supLinks.any fun s =>
    (sourceHash.all fun h => s.sourceHash = h) && (s.signature order).length != 0

/-- The votes a veto input takes away: all of the key's votes when it has no more than the
input's amount. -/
def applyVetoInput (votes : List (String × Nat)) (vi : VetoInput) : List (String × Nat) :=
  let pubKey := hexString vi.vote
  let amount := vi.spendCommitment.assetAmount.amount
  if voteOf votes pubKey > amount then setVote votes pubKey (voteOf votes pubKey - amount)
  else deleteVote votes pubKey

/-- The votes a vote output adds, in `uint64`. -/
def applyVoteOutput (votes : List (String × Nat)) (vote : List UInt8) (amount : Nat) :
    List (String × Nat) :=
  let pubKey := hexString vote
  setVote votes pubKey ((voteOf votes pubKey + amount) % 2 ^ 64)

/-- The loops of `applyVotes` over one transaction: its veto inputs, then its vote outputs. -/
def applyTxVotes (votes : List (String × Nat)) (tx : TxData) : List (String × Nat) :=
  let votes := tx.inputs.foldl (fun votes input =>
    match input.typedInput with
    | some (.veto vi) => applyVetoInput votes vi
    | _ => votes) votes
  tx.outputs.foldl (fun votes output =>
    match output.typedOutput with
    | .vote vote => applyVoteOutput votes vote output.outputCommitment.assetAmount.amount
    | .original => votes) votes

/-- `applyVotes`. -/
def Checkpoint.applyVotes (c : Checkpoint) (block : Block) : Checkpoint :=
  { c with votes := block.transactions.foldl applyTxVotes c.votes }

/-- What `applyValidatorReward` needs: the first output of the first transaction. -/
def validatorScriptExists (block : Block) : Bool :=
  match block.transactions with
  | tx :: _ => !tx.outputs.isEmpty
  | [] => false

/-- `Increase`: the checkpoint grows by the block, and ends its epoch at a multiple of
`BlocksOfEpoch`. -/
def Checkpoint.increase (cfg : CasperConfig) (c : Checkpoint) (block : Block) :
    Except CasperError Checkpoint :=
  if block.previousBlockHash ≠ c.hash then .error .increaseCheckpoint
  else
    let status := if block.height % cfg.blocksOfEpoch = 0 then .unjustified else c.status
    let grown : Checkpoint :=
      { c with
        status
        hash := block.hash
        height := block.height
        timestamp := block.timestamp }
    let c := grown.applyVotes block
    if validatorScriptExists block then .ok c else .error .panic

/-- The order of `AllValidators`' sort: more votes first, then the greater key. -/
def ValidatorBefore (a b : Validator) : Prop :=
  a.voteNum > b.voteNum ∨ (a.voteNum = b.voteNum ∧ b.pubKey ≤ a.pubKey)

instance : DecidableRel ValidatorBefore := fun a b =>
  inferInstanceAs (Decidable (a.voteNum > b.voteNum ∨ (a.voteNum = b.voteNum ∧ b.pubKey ≤ a.pubKey)))

/-- `AllValidators`: the keys with enough votes, sorted; none while the checkpoint grows. -/
def Checkpoint.allValidators (cfg : CasperConfig) (c : Checkpoint) : List Validator :=
  if c.status = .growing then []
  else
    ((c.votes.filter fun e => e.2 ≥ cfg.minValidatorVoteNum).map fun e =>
      { pubKey := e.1, order := 0, voteNum := e.2 }).insertionSort ValidatorBefore

/-- `federationValidators`: each configured key, with its index as its order. Go fills a map keyed
by the key's string, in which a key listed twice would keep only its last index. Every network
lists distinct keys (`MainNetParams` one, `TestNetParams` none, `SoloNetParams` the node's own), so
the map holds exactly these validators, one a key; a list keeps them in the configured order,
which `GetValidator`'s search by order does not depend on. -/
def federationValidators (cfg : CasperConfig) : List Validator :=
  cfg.federationXpubs.mapIdx fun i pubKey => { pubKey, order := i, voteNum := 0 }

/-- `EffectiveValidators`: the first `MaxNumOfValidators` of `AllValidators`, numbered, or the
federation when there are none. -/
def Checkpoint.effectiveValidators (cfg : CasperConfig) (c : Checkpoint) : List Validator :=
  let validators := c.allValidators cfg
  if validators = [] then federationValidators cfg
  else (validators.take maxNumOfValidators).mapIdx fun i v => { v with order := i }

/-- `validators[pubKey]`. -/
def findValidator (validators : List Validator) (pubKey : String) : Option Validator :=
  validators.find? fun v => v.pubKey = pubKey

section Lemmas

variable {cfg : CasperConfig}

theorem setSignature_signature (s : SupLink) {order : Nat} (h : order < maxNumOfValidators)
    (signature : List UInt8) : (s.setSignature order signature).signature order = signature := by
  unfold SupLink.setSignature SupLink.signature
  rw [List.getD_eq_getElem?_getD, List.getElem?_set_self (by rw [s.length_signatures]; exact h)]
  rfl

theorem setSignature_signature_of_ne (s : SupLink) {order order' : Nat} (h : order' ≠ order)
    (signature : List UInt8) :
    (s.setSignature order signature).signature order' = s.signature order' := by
  unfold SupLink.setSignature SupLink.signature
  rw [List.getD_eq_getElem?_getD, List.getD_eq_getElem?_getD, List.getElem?_set_ne (Ne.symm h)]

@[simp] theorem empty_signature (sourceHeight sourceHash order : Nat) :
    (SupLink.empty sourceHeight sourceHash).signature order = [] := by
  unfold SupLink.empty SupLink.signature
  rw [List.getD_eq_getElem?_getD, List.getElem?_replicate]
  split <;> rfl

/-- A checkpoint that is not growing and has no key with enough votes is served by the
federation. -/
theorem effectiveValidators_eq_federation {c : Checkpoint}
    (hv : ∀ e ∈ c.votes, e.2 < cfg.minValidatorVoteNum) :
    c.effectiveValidators cfg = federationValidators cfg := by
  have hall : c.allValidators cfg = [] := by
    unfold Checkpoint.allValidators
    split
    · rfl
    · rw [List.filter_eq_nil_iff.mpr fun e he => by simpa using hv e he]
      rfl
  unfold Checkpoint.effectiveValidators
  rw [if_pos hall]

end Lemmas

end KuskCore.Protocol
