import Mathlib
import KuskCore.GoInt
import KuskCore.Casper.Run

/-!
# Who produces a block

`Checkpoint.GetValidator` and `getValidatorOrder` of `protocol/state/checkpoint.go`. The effective
validators of the checkpoint before a block take turns of `BlockTimeInterval` each, from one
interval after the checkpoint's timestamp: the block at time `ts` is due from the validator whose
order is the number of whole intervals since then, modulo the number of validators. The orders
are `0, …, k - 1`, in the ranking of `AllValidators`, and the ranking does not depend on the order
in which the map of votes is read (`getValidator_schedule`).

`getValidatorOrder` divides by the length of a round, the number of validators times the
interval. With no validator, as at the genesis checkpoint of the test network, whose federation
is empty, the division by zero panics.
-/

namespace KuskCore.Protocol

open GoInt

/-- `BlockTimeInterval`, in milliseconds; every network has the same. -/
def blockTimeInterval : Nat := 6000

/-- `TestNetParams.CasperConfig`: the network has no federation keys. -/
def testNetCasperConfig : CasperConfig where
  blocksOfEpoch := 100
  minValidatorVoteNum := 100000000
  federationXpubs := []
  blocksOfEpoch_pos := by decide

/-- `getValidatorOrder`, in `uint64`; a round of no time is Go's division by zero. -/
def getValidatorOrder (startTimestamp blockTimestamp numOfValidators : Nat) :
    Except CasperError Nat :=
  let roundBlockTime := uint64 (numOfValidators * blockTimeInterval)
  if roundBlockTime = 0 then .error .panic
  else
    let lastRoundStartTime := uint64 (startTimestamp +
      uint64 (subUint64 blockTimestamp startTimestamp / roundBlockTime * roundBlockTime))
    .ok (subUint64 blockTimestamp lastRoundStartTime / blockTimeInterval)

/-- `GetValidator`: the effective validator whose order is due at `timeStamp`; `none` is Go's
nil. -/
def Checkpoint.getValidator (cfg : CasperConfig) (c : Checkpoint) (timeStamp : Nat) :
    Except CasperError (Option Validator) := do
  let validators := c.effectiveValidators cfg
  let startTimestamp := uint64 (c.timestamp + blockTimeInterval)
  let order ← getValidatorOrder startTimestamp timeStamp validators.length
  pure (validators.find? fun validator => validator.order = order)

/-- The validators `AllValidators` collects from the map of votes, before it sorts them. -/
def Checkpoint.candidates (cfg : CasperConfig) (c : Checkpoint) : List Validator :=
  (c.votes.filter fun e => e.2 ≥ cfg.minValidatorVoteNum).map fun e =>
    { pubKey := e.1, order := 0, voteNum := e.2 }

/-! ## The ranking -/

instance : Std.Total ValidatorBefore where
  total a b := by
    unfold ValidatorBefore
    rcases lt_trichotomy a.voteNum b.voteNum with h | h | h
    · exact .inr (.inl h)
    · rcases le_total a.pubKey b.pubKey with h' | h'
      · exact .inr (.inr ⟨h.symm, h'⟩)
      · exact .inl (.inr ⟨h, h'⟩)
    · exact .inl (.inl h)

instance : IsTrans Validator ValidatorBefore where
  trans a b c := by
    unfold ValidatorBefore
    rintro (hab | ⟨hab, hab'⟩) (hbc | ⟨hbc, hbc'⟩)
    · exact .inl (lt_trans hbc hab)
    · exact .inl (hbc ▸ hab)
    · exact .inl (hab ▸ hbc)
    · exact .inr ⟨hab.trans hbc, hbc'.trans hab'⟩

/-- Two candidates each ranked before the other are the same: the ranking is strict between the
keys of a map. -/
theorem ValidatorBefore.antisymm_of_order {a b : Validator} (ha : a.order = b.order)
    (hab : ValidatorBefore a b) (hba : ValidatorBefore b a) : a = b := by
  unfold ValidatorBefore at hab hba
  have hv : a.voteNum = b.voteNum := by omega
  have hk : a.pubKey = b.pubKey := by
    rcases hab with hab | ⟨_, hab⟩
    · omega
    rcases hba with hba | ⟨_, hba⟩
    · omega
    exact le_antisymm hba hab
  cases a
  cases b
  simp_all

variable {cfg : CasperConfig} {c : Checkpoint}

theorem allValidators_of_growing (h : c.status = .growing) : c.allValidators cfg = [] := by
  rw [Checkpoint.allValidators, if_pos h]

theorem allValidators_of_ne_growing (h : c.status ≠ .growing) :
    c.allValidators cfg = (c.candidates cfg).insertionSort ValidatorBefore := by
  rw [Checkpoint.allValidators, if_neg h]
  rfl

theorem order_of_mem_candidates {v : Validator} (hv : v ∈ c.candidates cfg) : v.order = 0 := by
  obtain ⟨e, -, rfl⟩ := List.mem_map.mp hv
  rfl

theorem order_of_mem_allValidators {v : Validator} (hv : v ∈ c.allValidators cfg) :
    v.order = 0 := by
  by_cases h : c.status = .growing
  · rw [allValidators_of_growing h] at hv
    cases hv
  · rw [allValidators_of_ne_growing h] at hv
    exact order_of_mem_candidates ((List.perm_insertionSort _ _).subset hv)

theorem pairwise_allValidators : (c.allValidators cfg).Pairwise ValidatorBefore := by
  by_cases h : c.status = .growing
  · rw [allValidators_of_growing h]
    exact List.Pairwise.nil
  · rw [allValidators_of_ne_growing h]
    exact List.pairwise_insertionSort _ _

theorem allValidators_perm (h : c.status ≠ .growing) : (c.allValidators cfg).Perm (c.candidates cfg) := by
  rw [allValidators_of_ne_growing h]
  exact List.perm_insertionSort _ _

/-- Reading the map of votes in another order gives the same ranking. -/
theorem allValidators_of_perm {votes : List (String × Nat)} (hv : votes.Perm c.votes) :
    ({ c with votes } : Checkpoint).allValidators cfg = c.allValidators cfg := by
  by_cases h : c.status = .growing
  · rw [allValidators_of_growing (c := { c with votes }) h, allValidators_of_growing h]
  · have hcand : (({ c with votes } : Checkpoint).candidates cfg).Perm (c.candidates cfg) :=
      (hv.filter _).map _
    refine List.Perm.eq_of_pairwise (fun a b ha hb hab hba => ?_) pairwise_allValidators
      pairwise_allValidators ?_
    · exact ValidatorBefore.antisymm_of_order
        ((order_of_mem_allValidators ha).trans (order_of_mem_allValidators hb).symm) hab hba
    · exact (allValidators_perm (c := { c with votes }) h).trans (hcand.trans (allValidators_perm h).symm)

/-! ## The orders -/

/-- Numbering a list by position gives the orders `0, …, n - 1`. -/
theorem map_order_mapIdx {α : Type} (l : List α) (f : Nat → α → Validator)
    (hf : ∀ i a, (f i a).order = i) :
    (l.mapIdx f).map (·.order) = List.range (l.mapIdx f).length := by
  apply List.ext_getElem
  · simp
  · intro i h₁ _
    simp [hf]

theorem effectiveValidators_of_ne_nil (h : c.allValidators cfg ≠ []) :
    c.effectiveValidators cfg =
      ((c.allValidators cfg).take maxNumOfValidators).mapIdx fun i v => { v with order := i } := by
  unfold Checkpoint.effectiveValidators
  rw [if_neg h]

theorem effectiveValidators_of_nil (h : c.allValidators cfg = []) :
    c.effectiveValidators cfg = federationValidators cfg := by
  unfold Checkpoint.effectiveValidators
  rw [if_pos h]

theorem effectiveValidators_orders :
    (c.effectiveValidators cfg).map (·.order) = List.range (c.effectiveValidators cfg).length := by
  by_cases h : c.allValidators cfg = []
  · rw [effectiveValidators_of_nil h, federationValidators]
    apply map_order_mapIdx
    intro _ _
    rfl
  · rw [effectiveValidators_of_ne_nil h]
    apply map_order_mapIdx
    intro _ _
    rfl

theorem length_effectiveValidators_le (hfed : cfg.federationXpubs.length ≤ maxNumOfValidators) :
    (c.effectiveValidators cfg).length ≤ maxNumOfValidators := by
  by_cases h : c.allValidators cfg = []
  · rw [effectiveValidators_of_nil h, federationValidators, List.length_mapIdx]
    exact hfed
  · rw [effectiveValidators_of_ne_nil h, List.length_mapIdx, List.length_take]
    exact Nat.min_le_left _ _

/-- Each order below the number of validators belongs to one of them. -/
theorem find?_order_of_lt {j : Nat} (hj : j < (c.effectiveValidators cfg).length) :
    ∃ v ∈ c.effectiveValidators cfg, v.order = j ∧
      (c.effectiveValidators cfg).find? (fun v => v.order = j) = some v := by
  have hmem : j ∈ (c.effectiveValidators cfg).map (·.order) := by
    rw [effectiveValidators_orders]
    exact List.mem_range.mpr hj
  obtain ⟨w, hw, hwj⟩ := List.mem_map.mp hmem
  obtain ⟨v, hv⟩ : ∃ v, (c.effectiveValidators cfg).find? (fun v => v.order = j) = some v :=
    Option.isSome_iff_exists.mp (List.find?_isSome.mpr ⟨w, hw, by simp [hwj]⟩)
  have hvj : v.order = j := by simpa using List.find?_some hv
  exact ⟨v, List.mem_of_find?_eq_some hv, hvj, hv⟩

/-! ## The slot -/

/-- The slot of a block after the start: whole intervals since the start, modulo the number of
validators. -/
theorem getValidatorOrder_eq {start ts n : Nat} (hn : 0 < n) (hround : n * blockTimeInterval < 2 ^ 64)
    (hstart : start ≤ ts) (hts : ts < 2 ^ 64) :
    getValidatorOrder start ts n = .ok ((ts - start) / blockTimeInterval % n) := by
  have hpos : n * blockTimeInterval ≠ 0 := Nat.pos_iff_ne_zero.mp (Nat.mul_pos hn (by decide))
  -- the start of the last round, \x60start + q\x60, is at most \x60ts\x60, so no step wraps
  set q := (ts - start) / (n * blockTimeInterval) * (n * blockTimeInterval) with hq
  have hqle : q ≤ ts - start := Nat.div_mul_le_self _ _
  have hrem : ts - (start + q) = (ts - start) % (n * blockTimeInterval) := by
    have := Nat.mod_add_div (ts - start) (n * blockTimeInterval)
    rw [Nat.mul_comm (n * blockTimeInterval)] at this
    omega
  have h₁ : uint64 q = q := uint64_of_lt (by omega)
  have h₂ : uint64 (start + q) = start + q := uint64_of_lt (by omega)
  have h₃ : subUint64 ts (start + q) = ts - (start + q) := subUint64_of_le (by omega) hts
  simp only [getValidatorOrder, uint64_of_lt hround, hpos, if_false, subUint64_of_le hstart hts,
    ← hq, h₁, h₂, h₃, hrem, Nat.mod_mul_left_div_self]

theorem getValidatorOrder_zero (start ts : Nat) : getValidatorOrder start ts 0 = .error .panic := rfl

theorem map_pubKey_effectiveValidators (h : c.allValidators cfg ≠ []) :
    (c.effectiveValidators cfg).map (·.pubKey) =
      ((c.allValidators cfg).take maxNumOfValidators).map (·.pubKey) := by
  rw [effectiveValidators_of_ne_nil h]
  apply List.ext_getElem
  · simp
  · intro i _ _
    simp

theorem effectiveValidators_of_perm {votes : List (String × Nat)} (hv : votes.Perm c.votes) :
    ({ c with votes } : Checkpoint).effectiveValidators cfg = c.effectiveValidators cfg := by
  unfold Checkpoint.effectiveValidators
  rw [allValidators_of_perm hv]

theorem getValidator_of_nil (h : c.effectiveValidators cfg = []) (ts : Nat) :
    c.getValidator cfg ts = .error .panic := by
  simp only [Checkpoint.getValidator, h, List.length_nil, getValidatorOrder_zero]
  rfl

/-- From one interval after the checkpoint, the validator of the slot is found. -/
theorem getValidator_of_ne_nil (hfed : cfg.federationXpubs.length ≤ maxNumOfValidators)
    (h : c.effectiveValidators cfg ≠ []) {ts : Nat} (hts : c.timestamp + blockTimeInterval ≤ ts)
    (h64 : ts < 2 ^ 64) :
    ∃ v ∈ c.effectiveValidators cfg,
      v.order = (ts - (c.timestamp + blockTimeInterval)) / blockTimeInterval %
        (c.effectiveValidators cfg).length ∧
      c.getValidator cfg ts = .ok (some v) := by
  have hn : 0 < (c.effectiveValidators cfg).length := List.length_pos_of_ne_nil h
  have hround : (c.effectiveValidators cfg).length * blockTimeInterval < 2 ^ 64 := by
    have := length_effectiveValidators_le (c := c) hfed
    simp only [maxNumOfValidators, blockTimeInterval] at this ⊢
    omega
  have hstart : uint64 (c.timestamp + blockTimeInterval) = c.timestamp + blockTimeInterval :=
    uint64_of_lt (by omega)
  obtain ⟨v, hv, hvj, hfind⟩ := find?_order_of_lt (Nat.mod_lt
    ((ts - (c.timestamp + blockTimeInterval)) / blockTimeInterval) hn)
  refine ⟨v, hv, hvj, ?_⟩
  simp only [Checkpoint.getValidator, hstart, getValidatorOrder_eq hn hround hts h64]
  exact congrArg (Except.ok ∘ id) hfind

/-- Who produces a block. For every checkpoint and configuration with no more federation keys
than `MaxNumOfValidators`: the effective validators have the orders `0, …, k - 1`; when some
keys have enough votes they are the first `MaxNumOfValidators` of `AllValidators`, which ranks the
candidates of the map by votes and then by key and does not depend on the order the map is read
in, and otherwise they are the federation; and from one interval after the checkpoint, a block
at `ts` is due from the validator of order the number of whole intervals since then modulo `k`.
When there is no effective validator, `GetValidator` panics. -/
theorem getValidator_schedule (cfg : CasperConfig) (c : Checkpoint)
    (hfed : cfg.federationXpubs.length ≤ maxNumOfValidators) :
    (c.effectiveValidators cfg).map (·.order) = List.range (c.effectiveValidators cfg).length ∧
    (c.allValidators cfg).Pairwise ValidatorBefore ∧
    (c.status ≠ .growing → (c.allValidators cfg).Perm (c.candidates cfg)) ∧
    (c.allValidators cfg ≠ [] →
      (c.effectiveValidators cfg).map (·.pubKey) =
        ((c.allValidators cfg).take maxNumOfValidators).map (·.pubKey)) ∧
    (c.allValidators cfg = [] → c.effectiveValidators cfg = federationValidators cfg) ∧
    (∀ votes : List (String × Nat), votes.Perm c.votes →
      ({ c with votes } : Checkpoint).effectiveValidators cfg = c.effectiveValidators cfg) ∧
    ∀ ts, c.timestamp + blockTimeInterval ≤ ts → ts < 2 ^ 64 →
      (c.effectiveValidators cfg = [] → c.getValidator cfg ts = .error .panic) ∧
      (c.effectiveValidators cfg ≠ [] → ∃ v ∈ c.effectiveValidators cfg,
        v.order = (ts - (c.timestamp + blockTimeInterval)) / blockTimeInterval %
          (c.effectiveValidators cfg).length ∧
        c.getValidator cfg ts = .ok (some v)) :=
  ⟨effectiveValidators_orders, pairwise_allValidators, allValidators_perm,
    map_pubKey_effectiveValidators, effectiveValidators_of_nil, fun _ hv => effectiveValidators_of_perm hv,
    fun ts hts h64 => ⟨fun h => getValidator_of_nil h ts, fun h => getValidator_of_ne_nil hfed h hts h64⟩⟩

theorem getValidator_schedule_mainNet :
    ∃ v ∈ (genesisCheckpoint 0 0).effectiveValidators mainNetCasperConfig, v.order = 0 ∧
      (genesisCheckpoint 0 0).getValidator mainNetCasperConfig blockTimeInterval = .ok (some v) := by
  have h := ((getValidator_schedule mainNetCasperConfig (genesisCheckpoint 0 0) (by decide)).2.2.2.2.2.2
    blockTimeInterval (by decide) (by decide)).2 (by decide)
  simpa using h

/-- On the test network no checkpoint without validators has anyone to produce the next block:
the genesis checkpoint, with no votes, leaves \x60GetValidator\x60 the empty federation. -/
theorem getValidator_testNet_genesis (hash timestamp ts : Nat) :
    (genesisCheckpoint hash timestamp).getValidator testNetCasperConfig ts = .error .panic := by
  apply getValidator_of_nil
  have hstatus : (genesisCheckpoint hash timestamp).status ≠ .growing := by simp [genesisCheckpoint]
  -- no votes, so no candidates
  have hnil : (genesisCheckpoint hash timestamp).allValidators testNetCasperConfig = [] := by
    rw [allValidators_of_ne_growing hstatus]
    rfl
  rw [effectiveValidators_of_nil hnil]
  rfl

/-- The first block after genesis on the test network: \x60getValidatorOrder\x60 divides by zero. -/
theorem testNetGenesis_counterexample :
    (genesisCheckpoint 0 0).getValidator testNetCasperConfig blockTimeInterval = .error .panic :=
  getValidator_testNet_genesis 0 0 blockTimeInterval

end KuskCore.Protocol
