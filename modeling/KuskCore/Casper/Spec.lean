import KuskCore.Casper.Run

/-!
# What the Casper functions do

One lemma for each function that a vote goes through: the condition on the state under which it
succeeds, and the state it leaves. The theorems about votes cite these and unfold none of the
functions.

The two checks of a vote pass when the validator's signed links are all to the vote's target:
`verifyVerification_run_of_votedOnlyFor`.
-/

namespace KuskCore.Protocol

open EStateM

/-! ## Sup links -/

section Links

variable {sourceHash order : Nat} {signature : List UInt8}

@[simp] theorem setSignature_sourceHash (s : SupLink) :
    (s.setSignature order signature).sourceHash = s.sourceHash := rfl

/-- `signSupLinks` signs a link from the source and keeps the links from other sources. -/
theorem signSupLinks_spec : ∀ {links links' : List SupLink} {l : SupLink},
    signSupLinks sourceHash order signature links = some (links', l) →
    (∃ l₀ : SupLink, l = l₀.setSignature order signature ∧ l₀.sourceHash = sourceHash) ∧ l ∈ links' ∧
      ∀ l' ∈ links, l'.sourceHash ≠ sourceHash → l' ∈ links'
  | [], _, _, h => by simp [signSupLinks] at h
  | s :: rest, links', l, h => by
    unfold signSupLinks at h
    split at h
    · -- the first link is from the source: it is the one signed
      rename_i hs
      simp only [Option.some.injEq, Prod.mk.injEq] at h
      obtain ⟨rfl, rfl⟩ := h
      refine ⟨⟨s, rfl, hs⟩, List.mem_cons_self, fun l' hl' hne => ?_⟩
      rcases List.mem_cons.mp hl' with rfl | hl'
      · exact absurd hs hne
      · exact List.mem_cons_of_mem _ hl'
    · rename_i hs
      obtain ⟨⟨rest', l'⟩, hr, he⟩ := Option.map_eq_some_iff.mp h
      simp only [Prod.mk.injEq] at he
      obtain ⟨rfl, rfl⟩ := he
      obtain ⟨hl, hmem, hkeep⟩ := signSupLinks_spec hr
      refine ⟨hl, List.mem_cons_of_mem _ hmem, fun l'' hl'' hne => ?_⟩
      rcases List.mem_cons.mp hl'' with rfl | hl''
      · exact List.mem_cons_self
      · exact List.mem_cons_of_mem _ (hkeep l'' hl'' hne)

/-- `addSupLink` returns a link from the source, signed, among the links it returns, and keeps
the links from other sources. -/
theorem addSupLink_spec (links : List SupLink) (sourceHeight sourceHash : Nat)
    (signature : List UInt8) (h : order < maxNumOfValidators) :
    (addSupLink links sourceHeight sourceHash signature order).2.sourceHash = sourceHash ∧
      (addSupLink links sourceHeight sourceHash signature order).2.signature order = signature ∧
      (addSupLink links sourceHeight sourceHash signature order).2 ∈
        (addSupLink links sourceHeight sourceHash signature order).1 ∧
      ∀ l ∈ links, l.sourceHash ≠ sourceHash →
        l ∈ (addSupLink links sourceHeight sourceHash signature order).1 := by
  unfold addSupLink
  split
  · rename_i r hr
    obtain ⟨⟨l₀, hl, hs⟩, hmem, hkeep⟩ := signSupLinks_spec hr
    refine ⟨by rw [hl]; exact hs, by rw [hl]; exact setSignature_signature l₀ h signature, hmem, hkeep⟩
  · exact ⟨rfl, setSignature_signature _ h signature, List.mem_append_right _ List.mem_cons_self,
      fun l hl _ => List.mem_append_left _ hl⟩

end Links

/-! ## The store -/

section Store

variable {s : Casper} {c c' : Checkpoint} {h : Nat}

theorem find_spec (hc : s.find h = some c) : c ∈ s.checkpoints ∧ c.hash = h := by
  unfold Casper.find at hc
  have hh := List.find?_some hc
  exact ⟨List.mem_of_find?_eq_some hc, by simpa using hh⟩

/-- The store finds a checkpoint by its hash when no other has it. -/
theorem find_eq_of_mem (hc : c ∈ s.checkpoints)
    (hu : ∀ c' ∈ s.checkpoints, c'.hash = c.hash → c' = c) : s.find c.hash = some c := by
  unfold Casper.find
  cases hf : s.checkpoints.find? (fun c' => c'.hash == c.hash) with
  | none =>
    rw [List.find?_eq_none] at hf
    exact absurd (beq_self_eq_true c.hash) (hf c hc)
  | some c' =>
    have hh := List.find?_some hf
    rw [hu c' (List.mem_of_find?_eq_some hf) (by simpa using hh)]

theorem find_putCheckpoint :
    (s.putCheckpoint c).find h = (s.find h).map fun c' => if c'.hash = c.hash then c else c' := by
  unfold Casper.putCheckpoint Casper.find
  rw [List.find?_map]
  congr 2
  funext c'
  simp only [Function.comp_apply]
  split
  · rename_i he
    rw [he]
  · rfl

theorem find_setStatus {h' : Nat} {status : CheckpointStatus} :
    (s.setStatus h' status).find h =
      (s.find h).map fun c' => if c'.hash = h' then { c' with status } else c' := by
  unfold Casper.setStatus Casper.find
  rw [List.find?_map]
  congr 2
  funext c'
  simp only [Function.comp_apply]
  split <;> rfl

theorem mem_setStatus_of_ne {h' : Nat} {status : CheckpointStatus} (hc : c ∈ s.checkpoints)
    (hne : c.hash ≠ h') : c ∈ (s.setStatus h' status).checkpoints :=
  List.mem_map.mpr ⟨c, hc, if_neg hne⟩

/-- Finalizing moves the root, which the store does not look at. -/
theorem checkpoints_finalize : (s.finalize h).checkpoints = (s.setStatus h .finalized).checkpoints := by
  unfold Casper.finalize
  split <;> rfl

theorem find_finalize {h' : Nat} : (s.finalize h').find h = (s.setStatus h' .finalized).find h := by
  unfold Casper.find
  rw [checkpoints_finalize]

/-- In a store whose hashes are distinct, a checkpoint is found by its hash. -/
theorem find_of_nodup (hnodup : (s.checkpoints.map Checkpoint.hash).Nodup) (hc : c ∈ s.checkpoints) :
    s.find c.hash = some c := by
  refine find_eq_of_mem hc fun c' hc' he => ?_
  exact List.inj_on_of_nodup_map hnodup hc' hc he

theorem mem_putCheckpoint (hc : c' ∈ s.checkpoints) (he : c'.hash = c.hash) :
    c ∈ (s.putCheckpoint c).checkpoints :=
  List.mem_map.mpr ⟨c', hc, if_pos he⟩

theorem mem_putCheckpoint_of_ne (hc : c' ∈ s.checkpoints) (hne : c'.hash ≠ c.hash) :
    c' ∈ (s.putCheckpoint c).checkpoints :=
  List.mem_map.mpr ⟨c', hc, if_neg hne⟩

theorem mem_putCheckpoint_iff :
    c' ∈ (s.putCheckpoint c).checkpoints ↔
      (c' = c ∧ ∃ c'' ∈ s.checkpoints, c''.hash = c.hash) ∨ (c' ∈ s.checkpoints ∧ c'.hash ≠ c.hash) := by
  unfold Casper.putCheckpoint
  simp only [List.mem_map]
  constructor
  · rintro ⟨c'', hc'', rfl⟩
    split
    · exact .inl ⟨rfl, c'', hc'', by assumption⟩
    · exact .inr ⟨hc'', by assumption⟩
  · rintro (⟨rfl, c'', hc'', he⟩ | ⟨hc, hne⟩)
    · exact ⟨c'', hc'', if_pos he⟩
    · exact ⟨c', hc, if_neg hne⟩

theorem getCheckpoint_run (hc : s.find h = some c) : (getCheckpoint h).run s = .ok c s := by
  unfold getCheckpoint
  rw [run_bind_of_ok (run_get _)]
  simp only [hc]
  rfl

theorem getParent_run (hp : s.parent c = some c') : (getParent c).run s = .ok c' s := by
  unfold getParent
  rw [run_bind_of_ok (run_get _)]
  simp only [hp]
  rfl

/-- A node's parent is found by its parent hash. -/
theorem parent_spec (hp : s.parent c = some c') :
    c'.hash = c.parentHash ∧ c' ∈ s.checkpoints ∧ c.hash ≠ s.root := by
  unfold Casper.parent at hp
  split at hp
  · cases hp
  · obtain ⟨hmem, hh⟩ := find_spec hp
    exact ⟨hh, hmem, by assumption⟩

theorem setFinalized_run (c : Checkpoint) : (setFinalized c).run s = .ok () (s.finalize c.hash) :=
  rfl

/-- `setJustified` puts the target back justified, and finalizes the source of a direct child. -/
theorem setJustified_run (source target : Checkpoint) :
    (setJustified source target).run s =
      .ok { target with status := .justified }
        (if target.parentHash = source.hash then
          (s.putCheckpoint { target with status := .justified }).finalize source.hash
        else s.putCheckpoint { target with status := .justified }) := by
  unfold setJustified
  rw [run_bind_of_ok (run_modify _ _)]
  simp only
  split
  · rw [run_bind_of_ok (setFinalized_run source)]
    rfl
  · rfl

theorem treeNodes_subset (hc : c ∈ s.treeNodes) : c ∈ s.checkpoints :=
  (List.mem_filter.mp hc).1

theorem nodeByHash_spec (hn : s.nodeByHash h = some c) : c ∈ s.checkpoints ∧ c.hash = h := by
  unfold Casper.nodeByHash Casper.findOnlyOne at hn
  have hh := List.find?_some hn
  exact ⟨treeNodes_subset (List.mem_of_find?_eq_some hn), by simpa using hh⟩

end Store

/-! ## Checking a vote -/

/-- What `valid` checks of a vote. -/
structure Verification.Valid (env : CasperEnv) (v : Verification) : Prop where
  source_mod : v.sourceHeight % env.config.blocksOfEpoch = 0
  target_mod : v.targetHeight % env.config.blocksOfEpoch = 0
  source_lt : v.sourceHeight < v.targetHeight
  signature : env.verifySignature v.pubKey v.sourceHash v.targetHash v.signature = true

/-- Every link the validator `order` has signed is to the checkpoint with hash `target` at height
`height`, and from a source other than `source`. -/
def VotedOnlyFor (s : Casper) (order target height source : Nat) : Prop :=
  ∀ c ∈ s.checkpoints, ∀ l ∈ c.supLinks, (l.signature order).length ≠ 0 →
    c.hash = target ∧ c.height = height ∧ l.sourceHash ≠ source

section Checks

variable {env : CasperEnv} {s : Casper} {v : Verification}

theorem valid_run (hv : v.Valid env) : (v.valid env).run s = .ok () s := by
  unfold Verification.valid
  simp only
  rw [if_neg (by have := hv.source_mod; have := hv.target_mod; omega),
    if_neg (Nat.not_le.mpr hv.source_lt), hv.signature]
  rfl

theorem verifySameHeight_run
    (h : ∀ c ∈ s.checkpoints, c.height = v.targetHeight → c.hash ≠ v.targetHash →
      ∀ l ∈ c.supLinks, (l.signature v.order).length = 0) :
    (verifySameHeight v).run s = .ok () s := by
  unfold verifySameHeight
  rw [run_bind_of_ok (run_get _)]
  have hnone : ((s.checkpoints.filter fun c => c.height == v.targetHeight).any fun c =>
      c.supLinks.any fun l => (l.signature v.order).length != 0 && c.hash != v.targetHash) = false := by
    rw [List.any_eq_false]
    intro c hc
    obtain ⟨hc, hh⟩ := List.mem_filter.mp hc
    rw [Bool.not_eq_true, List.any_eq_false]
    intro l hl
    -- a signed link is one at the target
    by_cases hsig : (l.signature v.order).length = 0
    · simp [hsig]
    · have he : c.hash = v.targetHash :=
        Classical.byContradiction fun hne => hsig (h c hc (beq_iff_eq.mp hh) hne l hl)
      simp [he]
  simp only [hnone]
  rfl

theorem verifySpanHeight_run
    (h : ∀ c ∈ s.checkpoints, c.height ≠ v.targetHeight → ∀ l ∈ c.supLinks, ¬ SpansVerification v c l) :
    (verifySpanHeight v).run s = .ok () s := by
  unfold verifySpanHeight
  rw [run_bind_of_ok (run_get _)]
  have hnone : (s.findOnlyOne fun c => c.height != v.targetHeight &&
      c.supLinks.any fun l => decide (SpansVerification v c l)) = none := by
    unfold Casper.findOnlyOne
    rw [List.find?_eq_none]
    intro c hc
    simp only [Bool.and_eq_true, bne_iff_ne, ne_eq, List.any_eq_true, decide_eq_true_eq, not_and,
      not_exists]
    intro hh l hl
    exact h c (treeNodes_subset hc) hh l hl
  simp only [hnone, Option.isSome_none]
  rfl

/-- A vote whose validator has signed only links to its target, from other sources, passes both
checks. -/
theorem verifyVerification_run_of_votedOnlyFor (hv : v.Valid env)
    (ho : VotedOnlyFor s v.order v.targetHash v.targetHeight v.sourceHash) :
    (verifyVerification env v).run s = .ok () s := by
  unfold verifyVerification
  rw [run_bind_of_ok (valid_run hv)]
  rw [run_bind_of_ok (verifySameHeight_run fun c hc hh hne l hl => by
    by_contra hsig
    exact hne (ho c hc l hl hsig).1)]
  refine verifySpanHeight_run fun c hc hh l hl hspan => hh ?_
  exact (ho c hc l hl hspan.1).2.1

theorem containsVerification_eq_false {c : Checkpoint} {order source : Nat}
    (h : ∀ l ∈ c.supLinks, (l.signature order).length ≠ 0 → l.sourceHash ≠ source) :
    c.containsVerification order (some source) = false := by
  unfold Checkpoint.containsVerification
  rw [List.any_eq_false]
  intro l hl
  simp only [Option.all_some, decide_eq_true_eq, bne_iff_ne, ne_eq, Bool.and_eq_true, not_and]
  exact fun hs hsig => h l hl hsig hs

theorem convertVerification_run {source target p : Checkpoint} {msg : ValidCasperSignMsg}
    {val : Validator} (hp : s.parent target = some p)
    (hval : findValidator (p.effectiveValidators env.config) msg.pubKey = some val) :
    (convertVerification env source target msg).run s =
      .ok ⟨source.hash, target.hash, source.height, target.height, msg.signature, msg.pubKey,
        val.order⟩ s := by
  unfold convertVerification
  rw [run_bind_of_ok (getParent_run hp)]
  simp only [hval]
  rfl

end Checks

/-! ## Recording a vote -/

section Record

variable {env : CasperEnv} {s : Casper} {n : Nat} {source target : Checkpoint} {v : Verification}

/-- `AuthVerification` of a vote for a node of the tree that it does not hold yet and that passes
the checks is `addVerifications` of that vote, with the parent's validators. -/
theorem AuthVerification_run_eq {msg : ValidCasperSignMsg} {p : Checkpoint} {val : Validator}
    (ht : s.nodeByHash msg.targetHash = some target) (hsrc : s.find msg.sourceHash = some source)
    (hp : s.parent target = some p)
    (hval : findValidator (p.effectiveValidators env.config) msg.pubKey = some val)
    (hc : target.containsVerification val.order (some source.hash) = false)
    (hverify : (verifyVerification env ⟨source.hash, target.hash, source.height, target.height,
      msg.signature, msg.pubKey, val.order⟩).run s = .ok () s) :
    (AuthVerification env msg).run s =
      (addVerifications (p.effectiveValidators env.config).length target
        [⟨source.hash, target.hash, source.height, target.height, msg.signature, msg.pubKey,
          val.order⟩]).run s := by
  unfold AuthVerification
  rw [run_bind_of_ok (run_get _)]
  simp only [ht]
  rw [run_bind_of_ok (getCheckpoint_run hsrc), run_bind_of_ok (convertVerification_run hp hval)]
  simp only [hc, Bool.false_eq_true, if_false]
  unfold authVerification addVerificationToCheckpoint
  rw [run_bind_of_ok hverify, run_bind_of_ok (getParent_run hp)]

/-- A vote that does not justify its target only signs the target's link. -/
theorem addVerifications_run_of_not (hsrc : s.find v.sourceHash = some source)
    (hno : ¬ ((target.addVerification v.sourceHash v.sourceHeight v.order v.signature).1.status =
        .unjustified ∧
      (target.addVerification v.sourceHash v.sourceHeight v.order v.signature).2.isMajority n ∧
      source.status ≠ .finalized)) :
    (addVerifications n target [v]).run s =
      .ok () (s.putCheckpoint (target.addVerification v.sourceHash v.sourceHeight v.order
        v.signature).1) := by
  unfold addVerifications
  rw [run_bind_of_ok (getCheckpoint_run hsrc)]
  simp only
  rw [run_bind_of_ok (run_modify _ _), if_neg hno]
  rfl

/-- A vote that turns the target's link into a majority from a source that is not finalized
justifies the target, and finalizes the source when the target is its direct child. -/
theorem addVerifications_run_of_justify (hsrc : s.find v.sourceHash = some source)
    (hyes : (target.addVerification v.sourceHash v.sourceHeight v.order v.signature).1.status =
        .unjustified ∧
      (target.addVerification v.sourceHash v.sourceHeight v.order v.signature).2.isMajority n ∧
      source.status ≠ .finalized) :
    (addVerifications n target [v]).run s =
      let t := (target.addVerification v.sourceHash v.sourceHeight v.order v.signature).1
      let s' := (s.putCheckpoint t).putCheckpoint { t with status := .justified }
      .ok () (if t.parentHash = source.hash then s'.finalize source.hash else s') := by
  unfold addVerifications
  rw [run_bind_of_ok (getCheckpoint_run hsrc)]
  simp only
  rw [run_bind_of_ok (run_modify _ _), if_pos hyes, run_bind_of_ok (setJustified_run _ _)]
  rfl

end Record

end KuskCore.Protocol
