import KuskCore.Casper.Spec

/-!
# Votes Casper accepts

Casper is meant to refuse a validator's vote that conflicts with another of its votes
(`AuthVerification`'s comment: two distinct votes for targets of the same height, or one within
the span of the other), and to justify a checkpoint only through a majority link from a justified
source, finalizing a justified checkpoint whose direct child it justifies.

Neither holds of the code:

* `AuthVerification_records_second_vote`: a validator whose only votes are for one target votes
  for it again from another source, and Casper records both votes. Both checks pass over the
  vote's own target, and `ContainsVerification` looks only at the same source.
* `AuthVerification_finalizes_unjustified_parent`: a majority vote from an unjustified checkpoint
  to its direct child justifies the child and finalizes the checkpoint.
  `addVerificationToCheckpoint` asks only that the source is not finalized.

Both happen on a run from genesis with mainnet's configuration and its one federation validator:
`slashableVotes_counterexample` and `unjustifiedFinalized_counterexample`.
-/

namespace KuskCore.Protocol

open EStateM

/-- Two distinct votes of the validator `order` recorded in the checkpoints that Casper's rules
forbid: for targets of the same height, or one within the span of the other. -/
def Slashable (s : Casper) (order : Nat) : Prop :=
  ∃ c₁ ∈ s.checkpoints, ∃ l₁ ∈ c₁.supLinks, ∃ c₂ ∈ s.checkpoints, ∃ l₂ ∈ c₂.supLinks,
    (l₁.signature order).length ≠ 0 ∧ (l₂.signature order).length ≠ 0 ∧
    (l₁.sourceHash ≠ l₂.sourceHash ∨ c₁.hash ≠ c₂.hash) ∧
    (c₁.height = c₂.height ∨
      l₁.sourceHeight < l₂.sourceHeight ∧ l₂.sourceHeight < c₂.height ∧ c₂.height < c₁.height)

instance (s : Casper) (order : Nat) : Decidable (Slashable s order) :=
  inferInstanceAs (Decidable (∃ c₁ ∈ s.checkpoints, ∃ l₁ ∈ c₁.supLinks, ∃ c₂ ∈ s.checkpoints,
    ∃ l₂ ∈ c₂.supLinks, (l₁.signature order).length ≠ 0 ∧ (l₂.signature order).length ≠ 0 ∧
    (l₁.sourceHash ≠ l₂.sourceHash ∨ c₁.hash ≠ c₂.hash) ∧
    (c₁.height = c₂.height ∨
      l₁.sourceHeight < l₂.sourceHeight ∧ l₂.sourceHeight < c₂.height ∧ c₂.height < c₁.height)))

instance (s : Casper) (order target height source : Nat) :
    Decidable (VotedOnlyFor s order target height source) :=
  inferInstanceAs (Decidable (∀ c ∈ s.checkpoints, ∀ l ∈ c.supLinks,
    (l.signature order).length ≠ 0 → c.hash = target ∧ c.height = height ∧ l.sourceHash ≠ source))

section Votes

variable {env : CasperEnv} {s : Casper} {t src : Checkpoint} {val : Validator}
  {signature : List UInt8} {key : String}

/-- A vote's source, below its target, is another checkpoint. -/
theorem hash_ne_of_valid (hnodup : (s.checkpoints.map Checkpoint.hash).Nodup)
    (hsrc : src ∈ s.checkpoints) (ht : t ∈ s.checkpoints)
    (hv : Verification.Valid env ⟨src.hash, t.hash, src.height, t.height, signature, key, val.order⟩) :
    src.hash ≠ t.hash := by
  intro he
  have hst : src = t := List.inj_on_of_nodup_map hnodup hsrc ht he
  have hlt := hv.source_lt
  simp only [hst, Nat.lt_irrefl] at hlt

/-- A validator whose signed links are all to one target, from other sources than `src`, votes
for that target again from `src`: `AuthVerification` records the vote beside the earlier one, two
votes of the validator for targets of the same height. -/
theorem AuthVerification_records_second_vote {p : Checkpoint} {l₁ : SupLink}
    (hnodup : (s.checkpoints.map Checkpoint.hash).Nodup)
    (ht : s.nodeByHash t.hash = some t) (hp : s.parent t = some p) (hsrc : src ∈ s.checkpoints)
    (hval : findValidator (p.effectiveValidators env.config) key = some val)
    (hord : val.order < maxNumOfValidators) (hsig : signature ≠ [])
    (hv : Verification.Valid env ⟨src.hash, t.hash, src.height, t.height, signature, key, val.order⟩)
    (ho : VotedOnlyFor s val.order t.hash t.height src.hash)
    (hl₁ : l₁ ∈ t.supLinks) (hsig₁ : (l₁.signature val.order).length ≠ 0) :
    ∃ s', (AuthVerification env ⟨src.hash, t.hash, signature, key⟩).run s = .ok () s' ∧
      Slashable s' val.order := by
  obtain ⟨htm, -⟩ := nodeByHash_spec ht
  have hfs : s.find src.hash = some src := find_of_nodup hnodup hsrc
  have hne : src.hash ≠ t.hash := hash_ne_of_valid hnodup hsrc htm hv
  have hc : t.containsVerification val.order (some src.hash) = false :=
    containsVerification_eq_false fun l hl hs => (ho t htm l hl hs).2.2
  rw [AuthVerification_run_eq ht hfs hp hval hc (verifyVerification_run_of_votedOnlyFor hv ho)]
  -- the target's links after the vote: the new one, and the earlier one from another source
  obtain ⟨hsh, hsg, hmem, hkeep⟩ :=
    addSupLink_spec t.supLinks src.height src.hash signature hord
  have hold : l₁.sourceHash ≠ src.hash := (ho t htm l₁ hl₁ hsig₁).2.2
  let t' := (t.addVerification src.hash src.height val.order signature).1
  have hslash : ∀ s' : Casper, (∃ c ∈ s'.checkpoints, c.height = t.height ∧
      c.supLinks = t'.supLinks) → Slashable s' val.order := by
    rintro s' ⟨c, hc, -, hlinks⟩
    have hnew : ((t.addVerification src.hash src.height val.order signature).2.signature
        val.order).length ≠ 0 := by
      simp only [Checkpoint.addVerification, hsg, ne_eq, List.length_eq_zero_iff]
      exact hsig
    refine ⟨c, hc, l₁, hlinks ▸ hkeep l₁ hl₁ hold, c, hc, _, hlinks ▸ hmem, hsig₁, hnew,
      .inl ?_, .inl rfl⟩
    simp only [Checkpoint.addVerification, hsh]
    exact hold
  by_cases hyes : t'.status = .unjustified ∧
      (t.addVerification src.hash src.height val.order signature).2.isMajority
        (p.effectiveValidators env.config).length ∧ src.status ≠ .finalized
  · -- the vote justifies the target: it stays in the store, justified
    rw [addVerifications_run_of_justify hfs hyes]
    have hmem₂ : { t' with status := .justified } ∈
        ((s.putCheckpoint t').putCheckpoint { t' with status := .justified }).checkpoints :=
      mem_putCheckpoint (mem_putCheckpoint htm rfl) rfl
    refine ⟨_, rfl, hslash _ ⟨{ t' with status := .justified }, ?_, rfl, rfl⟩⟩
    split
    · rw [checkpoints_finalize]
      exact mem_setStatus_of_ne hmem₂ (Ne.symm hne)
    · exact hmem₂
  · rw [addVerifications_run_of_not hfs hyes]
    exact ⟨_, rfl, hslash _ ⟨t', mem_putCheckpoint htm rfl, rfl, rfl⟩⟩

/-- A majority vote from an unjustified checkpoint `a` to its direct child `t` justifies `t` and
finalizes `a`, which was never justified. -/
theorem AuthVerification_finalizes_unjustified_parent {a : Checkpoint}
    (hnodup : (s.checkpoints.map Checkpoint.hash).Nodup)
    (ht : s.nodeByHash t.hash = some t) (hp : s.parent t = some a)
    (hval : findValidator (a.effectiveValidators env.config) key = some val)
    (hv : Verification.Valid env ⟨a.hash, t.hash, a.height, t.height, signature, key, val.order⟩)
    (ho : VotedOnlyFor s val.order t.hash t.height a.hash)
    (htu : t.status = .unjustified) (hau : a.status = .unjustified)
    (hmaj : (t.addVerification a.hash a.height val.order signature).2.isMajority
      (a.effectiveValidators env.config).length) :
    ∃ s', (AuthVerification env ⟨a.hash, t.hash, signature, key⟩).run s = .ok () s' ∧
      (s'.find a.hash).map (·.status) = some .finalized ∧
      (s'.find t.hash).map (·.status) = some .justified := by
  obtain ⟨hpa, ha, -⟩ := parent_spec hp
  obtain ⟨htm, -⟩ := nodeByHash_spec ht
  have hfa : s.find a.hash = some a := find_of_nodup hnodup ha
  have hft : s.find t.hash = some t := find_of_nodup hnodup htm
  have hne : a.hash ≠ t.hash := hash_ne_of_valid hnodup ha htm hv
  have hc : t.containsVerification val.order (some a.hash) = false :=
    containsVerification_eq_false fun l hl hs => (ho t htm l hl hs).2.2
  rw [AuthVerification_run_eq ht hfa hp hval hc (verifyVerification_run_of_votedOnlyFor hv ho)]
  -- the source's status is not looked at beyond `finalized`
  have hyes : (t.addVerification a.hash a.height val.order signature).1.status = .unjustified ∧
      (t.addVerification a.hash a.height val.order signature).2.isMajority
        (a.effectiveValidators env.config).length ∧ a.status ≠ .finalized :=
    ⟨htu, hmaj, by rw [hau]; decide⟩
  rw [addVerifications_run_of_justify hfa hyes]
  -- the target is the source's direct child
  have hchild : (t.addVerification a.hash a.height val.order signature).1.parentHash = a.hash :=
    hpa.symm
  simp only [hchild, if_true]
  refine ⟨_, rfl, ?_, ?_⟩
  · rw [find_finalize, find_setStatus, find_putCheckpoint, find_putCheckpoint, hfa]
    simp [Checkpoint.addVerification, hne]
  · rw [find_finalize, find_setStatus, find_putCheckpoint, find_putCheckpoint, hft]
    simp [Checkpoint.addVerification, Ne.symm hne]

end Votes

/-! ## A run from genesis on mainnet's configuration -/

/-- A node with mainnet's Casper configuration that is not a validator; a signature verifies when
it is not empty. -/
def exampleEnv : NodeEnv where
  config := mainNetCasperConfig
  verifySignature := fun _ _ _ signature => !signature.isEmpty
  myPubKey := ""
  sign := fun _ _ => []

/-- A coinbase transaction with one output, which `applyValidatorReward` reads. -/
def coinbaseTx : KuskCore.Types.TxData where
  version := 1
  serializedSize := 0
  timeRange := 0
  inputs := [
    { assetVersion := 1
      typedInput := some (.coinbase ⟨[]⟩)
      commitmentSuffix := []
      witnessSuffix := [] }]
  outputs := [
    { assetVersion := 1
      outputCommitment := default
      commitmentSuffix := []
      typedOutput := .original }]

/-- Block `k` of a chain over the genesis block with hash 100: its hash is `100 + k`. -/
def chainBlock (k : Nat) : Block := ⟨k, 100 + k, 99 + k, k, [], [coinbaseTx]⟩

/-- The first two epochs: checkpoint 110 at height 10 and checkpoint 120 at height 20. -/
def twoEpochs : List Action := (List.range 20).map fun i => .applyBlock (chainBlock (i + 1))

/-- The federation's vote from the checkpoint `source` to the checkpoint `target`. -/
def federationVote (source target : Nat) : Action :=
  .authVerification ⟨source, target, [1], mainNetFederationXpub⟩

def genesis : Checkpoint := genesisCheckpoint 100 0

/-- Casper after the two epochs. -/
def twoEpochsState : Casper := (Casper.init genesis).afterAll exampleEnv twoEpochs

/-- Checkpoint 110, which ends the first epoch, as the two epochs leave it. -/
def checkpoint110 : Checkpoint := ⟨10, 110, 100, 10, .unjustified, [], []⟩

/-- Checkpoint 120, which ends the second epoch, as the two epochs leave it. -/
def checkpoint120 : Checkpoint := ⟨20, 120, 110, 20, .unjustified, [], []⟩

/-- Checkpoint 120 after the federation's vote from genesis, which justifies it. -/
def justified120 : Checkpoint :=
  { checkpoint120 with
    status := .justified
    supLinks := [(SupLink.empty 0 100).setSignature 0 [1]] }

set_option maxRecDepth 20000 in
/-- From genesis, the federation votes for checkpoint 120 from genesis and then from checkpoint
110: Casper holds both votes. -/
theorem slashableVotes_counterexample :
    Reachable exampleEnv genesis
        ((Casper.init genesis).afterAll exampleEnv
          (twoEpochs ++ [federationVote 100 120, federationVote 110 120])) ∧
      Slashable ((Casper.init genesis).afterAll exampleEnv
        (twoEpochs ++ [federationVote 100 120, federationVote 110 120])) 0 :=
  ⟨reachable_afterAll exampleEnv .init _, by decide +kernel⟩

set_option maxRecDepth 20000 in
theorem records_second_vote_twoEpochs :
    ∃ s', (AuthVerification exampleEnv.toCasperEnv
        ⟨checkpoint110.hash, justified120.hash, [1], mainNetFederationXpub⟩).run
        (twoEpochsState.after exampleEnv (federationVote 100 120)) = .ok () s' ∧
      Slashable s' 0 :=
  @AuthVerification_records_second_vote exampleEnv.toCasperEnv
    (twoEpochsState.after exampleEnv (federationVote 100 120)) justified120 checkpoint110
    ⟨mainNetFederationXpub, 0, 0⟩ [1] mainNetFederationXpub checkpoint110
    ((SupLink.empty 0 100).setSignature 0 [1])
    (by decide +kernel) (by decide +kernel) (by decide +kernel) (by decide +kernel)
    (by decide +kernel) (by decide) (by decide) ⟨by decide, by decide, by decide, by decide⟩
    (by decide +kernel) (by decide +kernel) (by decide +kernel)

set_option maxRecDepth 20000 in
/-- From genesis, the federation votes for checkpoint 120 from its parent 110, which is
unjustified: 120 is justified and 110 finalized, and no state of the run has 110 justified. -/
theorem unjustifiedFinalized_counterexample :
    Reachable exampleEnv genesis
        ((Casper.init genesis).afterAll exampleEnv (twoEpochs ++ [federationVote 110 120])) ∧
      (((Casper.init genesis).afterAll exampleEnv (twoEpochs ++ [federationVote 110 120])).find
        110).map (·.status) = some .finalized ∧
      (((Casper.init genesis).afterAll exampleEnv (twoEpochs ++ [federationVote 110 120])).find
        120).map (·.status) = some .justified ∧
      ∀ k ≤ 21, (((Casper.init genesis).afterAll exampleEnv
        ((twoEpochs ++ [federationVote 110 120]).take k)).find 110).map (·.status) ≠
          some .justified :=
  ⟨reachable_afterAll exampleEnv .init _, by decide +kernel, by decide +kernel, by decide +kernel⟩

set_option maxRecDepth 20000 in
theorem finalizes_unjustified_parent_twoEpochs :
    ∃ s', (AuthVerification exampleEnv.toCasperEnv
        ⟨checkpoint110.hash, checkpoint120.hash, [1], mainNetFederationXpub⟩).run
        twoEpochsState = .ok () s' ∧
      (s'.find checkpoint110.hash).map (·.status) = some .finalized ∧
      (s'.find checkpoint120.hash).map (·.status) = some .justified :=
  @AuthVerification_finalizes_unjustified_parent exampleEnv.toCasperEnv twoEpochsState
    checkpoint120 ⟨mainNetFederationXpub, 0, 0⟩ [1] mainNetFederationXpub checkpoint110
    (by decide +kernel) (by decide +kernel) (by decide +kernel) (by decide +kernel)
    ⟨by decide, by decide, by decide, by decide⟩ (by decide +kernel) (by decide) (by decide)
    (by decide +kernel)

end KuskCore.Protocol
