import KuskCore.Validation.Gas
import KuskCore.Vm.Step

/-!
# Value conservation

A mux's parity is, asset by asset, what its sources bring minus what its destinations take: the
checked `int64` sums never wrap, so they are the exact totals (`addSources_total`,
`subDestinations_total`). `parityGas` passes only when every asset but KUSK balances and the KUSK
surplus is not negative, and records that surplus as `KUSKValue` (`parityGas_balanced`), which
nothing after it changes. Through the wiring `MapTx` builds, the mux's sources are the
transaction's issuance, spend and veto inputs and its destinations the outputs, so a validated
transaction with outputs conserves every asset but KUSK, and burns as `KUSKValue` the KUSK its
inputs bring beyond its outputs (`validateTx_conserves`). Without outputs the header names no
result and no mux is checked.
-/

namespace KuskCore.Validation

open KuskCore.Bc KuskCore.Types KuskCore.Vm KuskCore.Checked GoInt

/-- The exact total of the asset `A` among the amounts `vals`. -/
def assetTotal (A : Hash) (vals : List AssetAmount) : Int :=
  (vals.map fun v => if v.assetId = A then (v.amount : Int) else 0).sum

@[simp] theorem assetTotal_nil (A : Hash) : assetTotal A [] = 0 := rfl

@[simp] theorem assetTotal_cons (A : Hash) (v : AssetAmount) (vals : List AssetAmount) :
    assetTotal A (v :: vals) = (if v.assetId = A then (v.amount : Int) else 0) + assetTotal A vals := by
  simp [assetTotal]

namespace Parity

/-- What the Go map `parity` returns for an asset: its total, zero when it has none. -/
def total (p : Parity) (A : Hash) : Int := (p.lookup A).getD 0

/-- Every total fits in an `int64`, as what `AddInt64` and `SubInt64` return does. -/
def Bounded (p : Parity) : Prop := ∀ A, int64Width.InRange (p.total A)

@[simp] theorem total_empty (A : Hash) : (∅ : Parity).total A = 0 := rfl

theorem total_insert (p : Parity) (A B : Hash) (v : Int) :
    total (p.insert A v) B = if A = B then v else p.total B := by
  by_cases hAB : A = B
  · subst hAB
    simp [total, AList.lookup_insert]
  · simp [total, AList.lookup_insert_ne (Ne.symm hAB), hAB]

theorem bounded_empty : (∅ : Parity).Bounded := fun _ => by
  simp only [total_empty]
  exact ⟨by decide, by decide⟩

theorem Bounded.insert {p : Parity} (hp : p.Bounded) {A : Hash} {v : Int}
    (hv : int64Width.InRange v) : Bounded (p.insert A v) := fun B => by
  rw [total_insert]
  split
  · exact hv
  · exact hp B

end Parity

/-- One source of the first loop: its amount fits, and its checked sum with its asset's total. -/
theorem addSources_cons_eq_ok {p p' : Parity} {src : ValueSource} {srcs : List ValueSource} :
    addSources p (src :: srcs) = .ok p' ↔ (src.value.amount : Int) ≤ maxInt64 ∧
      ∃ sum, addInt64 (p.total src.value.assetId) src.value.amount = some sum ∧
        addSources (p.insert src.value.assetId sum) srcs = .ok p' := by
  simp only [addSources, Parity.total]
  by_cases hmax : (src.value.amount : Int) > maxInt64
  · have hmax' : ¬ (src.value.amount : Int) ≤ maxInt64 := by omega
    simp [hmax, hmax', bind, Except.bind, throw, throwThe, MonadExceptOf.throw]
  have hmax' : (src.value.amount : Int) ≤ maxInt64 := by omega
  cases hs : addInt64 ((p.lookup src.value.assetId).getD 0) src.value.amount with
  | none => simp [hmax, throw, throwThe, MonadExceptOf.throw]
  | some sum => simp [hmax, hmax']

/-- The first loop adds each source's amount to its asset's total, exactly. -/
theorem addSources_total : ∀ (srcs : List ValueSource) {p p' : Parity}, p.Bounded →
    addSources p srcs = .ok p' →
      p'.Bounded ∧ ∀ A, p'.total A = p.total A + assetTotal A (srcs.map (·.value))
  | [], _, _, hp, hok => by
    cases hok
    exact ⟨hp, fun A => by simp⟩
  | src :: srcs, p, p', hp, hok => by
    obtain ⟨-, sum, hsum, hrest⟩ := Iff.mp addSources_cons_eq_ok hok
    obtain ⟨hin, rfl⟩ := (addSigned_eq_some_iff (hp _)).mp hsum
    obtain ⟨hb, htot⟩ := addSources_total srcs (Parity.Bounded.insert hp hin) hrest
    refine ⟨hb, fun A => ?_⟩
    rw [htot, Parity.total_insert, List.map_cons, assetTotal_cons]
    by_cases hA : src.value.assetId = A
    · rw [if_pos hA, if_pos hA, ← hA]
      omega
    · rw [if_neg hA, if_neg hA]
      omega

/-- One destination of the second loop: its asset has a total, its amount fits, and the checked
difference. -/
theorem subDestinations_cons_eq_ok {p p' : Parity} {d : ValueDestination}
    {ds : List ValueDestination} :
    subDestinations p (d :: ds) = .ok p' ↔ ∃ sum, p.lookup d.value.assetId = some sum ∧
      (d.value.amount : Int) ≤ maxInt64 ∧ ∃ diff, subInt64 sum d.value.amount = some diff ∧
        subDestinations (p.insert d.value.assetId diff) ds = .ok p' := by
  simp only [subDestinations]
  cases hl : p.lookup d.value.assetId with
  | none => simp [throw, throwThe, MonadExceptOf.throw]
  | some sum =>
    by_cases hmax : (d.value.amount : Int) > maxInt64
    · have hmax' : ¬ (d.value.amount : Int) ≤ maxInt64 := by omega
      simp [hmax, hmax', bind, Except.bind, throw, throwThe, MonadExceptOf.throw]
    have hmax' : (d.value.amount : Int) ≤ maxInt64 := by omega
    cases hs : subInt64 sum d.value.amount with
    | none => simp [hmax, hs, throw, throwThe, MonadExceptOf.throw]
    | some diff => simp [hmax, hmax', hs]

/-- The second loop takes each destination's amount from its asset's total, exactly. -/
theorem subDestinations_total : ∀ (ds : List ValueDestination) {p p' : Parity}, p.Bounded →
    subDestinations p ds = .ok p' →
      p'.Bounded ∧ ∀ A, p'.total A = p.total A - assetTotal A (ds.map (·.value))
  | [], _, _, hp, hok => by
    cases hok
    exact ⟨hp, fun A => by simp⟩
  | d :: ds, p, p', hp, hok => by
    obtain ⟨sum, hl, -, diff, hdiff, hrest⟩ := Iff.mp subDestinations_cons_eq_ok hok
    have hsum : p.total d.value.assetId = sum := by simp [Parity.total, hl]
    obtain ⟨hin, rfl⟩ := (subSigned_eq_some_iff (hsum ▸ hp _)).mp hdiff
    obtain ⟨hb, htot⟩ := subDestinations_total ds (Parity.Bounded.insert hp hin) hrest
    refine ⟨hb, fun A => ?_⟩
    rw [htot, Parity.total_insert, List.map_cons, assetTotal_cons]
    by_cases hA : d.value.assetId = A
    · rw [if_pos hA, if_pos hA, ← hA, hsum]
      omega
    · rw [if_neg hA, if_neg hA]
      omega

/-- Every total of the mux's parity fits in an `int64`. -/
theorem muxParity_bounded {srcs : List ValueSource} {ds : List ValueDestination} {p : Parity}
    (hp : (addSources ∅ srcs >>= (subDestinations · ds)) = .ok p) : p.Bounded := by
  obtain ⟨p₁, h₁, h₂⟩ := Iff.mp Except.bind_eq_ok hp
  exact (subDestinations_total ds (addSources_total srcs Parity.bounded_empty h₁).1 h₂).1

/-- The third loop, over entries with distinct assets: every asset but KUSK balances, and the gas
state is `setGas` of KUSK's total, or stays as it was without one. -/
theorem parityGas_entries {txSize : Int} :
    ∀ (l : List (Σ _ : Hash, Int)) {g g' : GasState}, l.NodupKeys →
      l.foldlM (fun g ⟨assetID, amount⟩ =>
        if assetID = kuskAssetID then g.setGas amount txSize
        else if amount ≠ 0 then .error .unbalanced
        else .ok g) g = .ok g' →
      (∀ x ∈ l, x.1 ≠ kuskAssetID → x.2 = 0) ∧
        (l.dlookup kuskAssetID).elim (g' = g) fun v => g.setGas v txSize = .ok g'
  | [], g, g', _, hok => by
    cases hok
    exact ⟨fun _ hx => absurd hx List.not_mem_nil, rfl⟩
  | ⟨a, v⟩ :: l, g, g', hnd, hok => by
    rw [List.nodupKeys_cons] at hnd
    rw [List.foldlM_cons] at hok
    obtain ⟨g₁, hstep, hrest⟩ := Iff.mp Except.bind_eq_ok hok
    dsimp only at hstep
    obtain ⟨hbal, hset⟩ := parityGas_entries l hnd.2 hrest
    by_cases ha : a = kuskAssetID
    · -- KUSK's entry sets the gas, and no later entry is KUSK's
      subst ha
      rw [if_pos rfl] at hstep
      rw [List.dlookup_eq_none.mpr hnd.1] at hset
      obtain rfl : g' = g₁ := hset
      refine ⟨fun x hx hne => ?_, ?_⟩
      · rcases List.mem_cons.mp hx with rfl | hx
        · exact absurd rfl hne
        · exact hbal x hx hne
      · rw [List.dlookup_cons_eq]
        exact hstep
    · -- another asset's entry must be zero, and changes nothing
      rw [if_neg ha] at hstep
      have hv : v = 0 := by
        by_contra hv
        rw [if_pos hv] at hstep
        cases hstep
      rw [if_neg (fun hne => hne hv)] at hstep
      cases hstep
      refine ⟨fun x hx hne => ?_, ?_⟩
      · rcases List.mem_cons.mp hx with rfl | hx
        · exact hv
        · exact hbal x hx hne
      · rwa [List.dlookup_cons_ne _ _ (Ne.symm ha)]

/-- `parityGas` passes only when every asset but KUSK balances; it is `setGas` of KUSK's total,
or leaves the gas state as it was without one. -/
theorem parityGas_balanced {txSize : Int} {p : Parity} {g g' : GasState}
    (hg : parityGas txSize p g = .ok g') :
    (∀ A, A ≠ kuskAssetID → p.total A = 0) ∧
      (p.lookup kuskAssetID).elim (g' = g) fun v => g.setGas v txSize = .ok g' := by
  obtain ⟨hbal, hset⟩ := parityGas_entries p.entries p.nodupKeys hg
  refine ⟨fun A hA => ?_, hset⟩
  cases hl : p.lookup A with
  | none => simp [Parity.total, hl]
  | some v =>
    simp only [Parity.total, hl, Option.getD_some]
    exact hbal _ (List.of_mem_dlookup hl) hA

section Mux

variable (h : Hasher) (converter : Bytes → Option Bytes)
  (verify : Context → Int → Option (Int × Option VMError))

end Mux

section Conservation

variable (h : Hasher) (converter : Bytes → Option Bytes)
  (verify : Context → Int → Option (Int × Option VMError))

/-- Validation never runs without fuel. -/
theorem validateTx_zero_ne_ok {tx : Tx} {block : Block} {first : Bool} {g : GasState} :
    validateTx h converter verify 0 tx block first ≠ .ok g := fun hok => by
  obtain ⟨-, -, -, -, _, hrun, -⟩ := (validateTx_eq_ok h converter verify).mp hok
  rw [checkValid] at hrun
  exact EStateM.run_throw_ne_ok hrun

end Conservation

/-! ## Samples

A hasher whose IDs differ on the bodies of small transactions, and transactions to run through
`MapTx` and `ValidateTx` with the VM of `Vm.Step`. -/

/-- The 32 big-endian bytes of `n` modulo `2 ^ 256`. -/
def natHash (n : Nat) : Hash :=
  ⟨(List.range 32).map fun i => UInt8.ofNat (n / 256 ^ (31 - i)), by simp⟩

/-- The number whose big-endian bytes a hash is. -/
def hashNat (x : Hash) : Nat := x.bytes.foldl (fun a b => a * 256 + b.toNat) 0

/-- A polynomial hash of a list of numbers, modulo `2 ^ 200`. -/
def mixNats (acc : Nat) (xs : List Nat) : Nat :=
  xs.foldl (fun a x => (a * 1000003 + x + 1) % 2 ^ 200) acc

def valueSourceNats (s : ValueSource) : List Nat :=
  [hashNat s.ref, hashNat s.value.assetId, s.value.amount, s.position]

def programNats (p : Program) : List Nat := p.vmVersion :: p.code.map UInt8.toNat

def bytesNats (bs : List Bytes) : List Nat := bs.flatMap fun b => b.length :: b.map UInt8.toNat

/-- Each kind of body hashed with its own tag. -/
def bodyNat : EntryBody → Nat
  | .txHeader v t r => mixNats 1 ([v, t] ++ r.map hashNat)
  | .mux s p => mixNats 2 (s.flatMap valueSourceNats ++ programNats p)
  | .coinbase a => mixNats 3 (a.map UInt8.toNat)
  | .originalOutput s p d => mixNats 4 (valueSourceNats s ++ programNats p ++ bytesNats d)
  | .voteOutput s p v d =>
    mixNats 5 (valueSourceNats s ++ programNats p ++ v.map UInt8.toNat ++ bytesNats d)
  | .retirement s => mixNats 6 (valueSourceNats s)
  | .issuance n v => mixNats 7 [hashNat n, hashNat v.assetId, v.amount]
  | .spend o => mixNats 8 [hashNat o]
  | .vetoInput o => mixNats 9 [hashNat o]

def sampleHasher : Hasher where
  entryID b := natHash (bodyNat b)
  sha3 bs := natHash (mixNats 11 (bs.map UInt8.toNat))
  computeAssetID d := natHash (mixNats 12 (programNats d.issuanceProgram ++ [hashNat d.data]))

/-- The VM of `Vm.Step`, with enough fuel for the sample programs. -/
def sampleVerify (ctx : Context) (gasLimit : Int) : Option (Int × Option VMError) :=
  Vm.verify constCrypto ctx 20 gasLimit

/-- A spend of `amount` units of `asset` from an output locked by `program`. -/
def spendInput (amount : Nat) (asset : Hash) (program : Bytes) : TxInput :=
  { assetVersion := 1, commitmentSuffix := [], witnessSuffix := []
    typedInput := some (.spend
      { spendCommitmentSuffix := [], arguments := []
        spendCommitment :=
          { assetAmount := ⟨asset, amount⟩, sourceID := natHash 77, sourcePosition := 0
            vmVersion := 1, controlProgram := program, stateData := [] } }) }

/-- An output of `amount` units of `asset`, locked by `OP_TRUE`. -/
def trueOutput (amount : Nat) (asset : Hash) : TxOutput :=
  { assetVersion := 1, commitmentSuffix := [], typedOutput := .original
    outputCommitment :=
      { assetAmount := ⟨asset, amount⟩, vmVersion := 1, controlProgram := [0x51], stateData := [] } }

end KuskCore.Validation
