import KuskCore.Types.Commitment

/-!
# Transaction inputs on the wire

`protocol/bc/types/txinput.go` and the typed inputs of `issuance.go`, `spend.go`, `coinbase.go`
and `veto_input.go`. An input is its asset version and two extensible strings. For asset version 1
the commitment string holds a type byte and the typed input's commitment, and the witness string
its witness; for any other version both hold only their suffixes.

The reader fills a fresh typed input, chosen by the type byte, first from the commitment and then
from the witness. `TxInput.readFrom_run` reads back every input that was written, as long as its
spend commitments have VM version 1 and an issuance's cached asset ID is the one its witness
computes; but a spend or veto input comes back with its commitment suffix twice
(`SpendCommitment.readFrom_run`).

`bc.ComputeAssetID` hashes an asset definition entry; here it is a parameter,
`computeAssetID`, of the issuance program, the VM version and the asset definition.
-/

namespace KuskCore.Types

open GoInt EStateM KuskCore.Blockchain

/-- `IssuanceInput`; `assetId` caches the asset ID, zero until it is computed or read. -/
structure IssuanceInput where
  nonce : List UInt8
  amount : Nat
  assetDefinition : List UInt8
  vmVersion : Nat
  issuanceProgram : List UInt8
  arguments : List (List UInt8)
  assetId : Hash
  deriving DecidableEq, Inhabited

/-- `SpendInput`. -/
structure SpendInput where
  spendCommitmentSuffix : List UInt8
  arguments : List (List UInt8)
  spendCommitment : SpendCommitment
  deriving DecidableEq, Inhabited

/-- `VetoInput`. -/
structure VetoInput where
  vetoCommitmentSuffix : List UInt8
  arguments : List (List UInt8)
  vote : List UInt8
  spendCommitment : SpendCommitment
  deriving DecidableEq, Inhabited

/-- `CoinbaseInput`. -/
structure CoinbaseInput where
  arbitrary : List UInt8
  deriving DecidableEq, Inhabited

/-- The four implementations of the `TypedInput` interface. -/
inductive TypedInput where
  | issuance (ii : IssuanceInput)
  | spend (si : SpendInput)
  | coinbase (cb : CoinbaseInput)
  | veto (vi : VetoInput)
  deriving DecidableEq

def issuanceInputType : UInt8 := 0
def spendInputType : UInt8 := 1
def coinbaseInputType : UInt8 := 2
def vetoInputType : UInt8 := 3

/-- `InputType`. -/
def TypedInput.inputType : TypedInput → UInt8
  | .issuance _ => issuanceInputType
  | .spend _ => spendInputType
  | .coinbase _ => coinbaseInputType
  | .veto _ => vetoInputType

/-- `inputTypeMap`: a fresh typed input for each known type byte. -/
def inputTypeMap (t : UInt8) : Option TypedInput :=
  if t = issuanceInputType then some (.issuance default)
  else if t = spendInputType then some (.spend default)
  else if t = coinbaseInputType then some (.coinbase default)
  else if t = vetoInputType then some (.veto default)
  else none

/-- `parseTypedInput`: one type byte. -/
def parseTypedInput : Reader TypedInput := do
  let inputType ← readFull 1
  match inputTypeMap (inputType.headD 0) with
  | some newIn => pure newIn
  | none => throw (.unsupportedInputType (inputType.headD 0))

/-- `TxInput`; Go's nil `TypedInput` is `none`. -/
structure TxInput where
  assetVersion : Nat
  typedInput : Option TypedInput
  commitmentSuffix : List UInt8
  witnessSuffix : List UInt8
  deriving DecidableEq, Inhabited

section Codec

-- `bc.ComputeAssetID` of an issuance program, its VM version and the hash of an asset
-- definition, as a function of the definition itself
variable (computeAssetID : List UInt8 → Nat → List UInt8 → Hash)

/-! ## Issuance inputs -/

/-- `calcAssetID`. -/
def IssuanceInput.calcAssetID (ii : IssuanceInput) : Hash :=
  computeAssetID ii.issuanceProgram ii.vmVersion ii.assetDefinition

/-- `AssetID`: the cached asset ID, computed when it is zero. -/
def IssuanceInput.assetID (ii : IssuanceInput) : Hash :=
  if ii.assetId.isZero then ii.calcAssetID computeAssetID else ii.assetId

/-- `writeCommitment`: the type byte, the nonce, the asset ID and the amount. -/
def IssuanceInput.writeCommitment (ii : IssuanceInput) : Except CodecError (List UInt8) := do
  let nonce ← writeVarstr31 ii.nonce
  let amount ← writeVarint63 ii.amount
  pure ([issuanceInputType] ++ nonce ++ (ii.assetID computeAssetID).bytes ++ amount)

/-- `writeWitness`. -/
def IssuanceInput.writeWitness (ii : IssuanceInput) : Except CodecError (List UInt8) := do
  let assetDefinition ← writeVarstr31 ii.assetDefinition
  let vmVersion ← writeVarint63 ii.vmVersion
  let issuanceProgram ← writeVarstr31 ii.issuanceProgram
  let arguments ← writeVarstrList ii.arguments
  pure (assetDefinition ++ vmVersion ++ issuanceProgram ++ arguments)

/-- `readCommitment`: the asset ID read goes into the cache. -/
def IssuanceInput.readCommitment (ii : IssuanceInput) : Reader IssuanceInput := do
  let nonce ← readVarstr31
  let assetId ← readHash
  let amount ← readVarint63
  pure { ii with nonce, assetId, amount }

/-- `readWitness`: the asset ID the witness computes must be the one the commitment read. -/
def IssuanceInput.readWitness (ii : IssuanceInput) : Reader IssuanceInput := do
  let assetDefinition ← readVarstr31
  let vmVersion ← readVarint63
  let issuanceProgram ← readVarstr31
  let ii := { ii with assetDefinition, vmVersion, issuanceProgram }
  if ii.calcAssetID computeAssetID ≠ ii.assetId then throw .badAssetID
  let arguments ← readVarstrList
  pure { ii with arguments }

/-! ## Spend, veto and coinbase inputs -/

/-- `SpendInput.writeCommitment`. -/
def SpendInput.writeCommitment (si : SpendInput) (assetVersion : Nat) :
    Except CodecError (List UInt8) := do
  let commitment ← si.spendCommitment.writeExtensibleString si.spendCommitmentSuffix assetVersion
  pure ([spendInputType] ++ commitment)

/-- `SpendInput.readCommitment`. -/
def SpendInput.readCommitment (si : SpendInput) : Reader SpendInput := do
  let (spendCommitment, spendCommitmentSuffix) ← SpendCommitment.readFrom 1
  pure { si with spendCommitment, spendCommitmentSuffix }

/-- `SpendInput.writeWitness`. -/
def SpendInput.writeWitness (si : SpendInput) : Except CodecError (List UInt8) :=
  writeVarstrList si.arguments

/-- `SpendInput.readWitness`. -/
def SpendInput.readWitness (si : SpendInput) : Reader SpendInput := do
  let arguments ← readVarstrList
  pure { si with arguments }

/-- `VetoInput.writeCommitment`: the spend commitment, then the vote. -/
def VetoInput.writeCommitment (vi : VetoInput) (assetVersion : Nat) :
    Except CodecError (List UInt8) := do
  let commitment ← vi.spendCommitment.writeExtensibleString vi.vetoCommitmentSuffix assetVersion
  let vote ← writeVarstr31 vi.vote
  pure ([vetoInputType] ++ commitment ++ vote)

/-- `VetoInput.readCommitment`. -/
def VetoInput.readCommitment (vi : VetoInput) : Reader VetoInput := do
  let (spendCommitment, vetoCommitmentSuffix) ← SpendCommitment.readFrom 1
  let vote ← readVarstr31
  pure { vi with spendCommitment, vetoCommitmentSuffix, vote }

/-- `VetoInput.writeWitness`. -/
def VetoInput.writeWitness (vi : VetoInput) : Except CodecError (List UInt8) :=
  writeVarstrList vi.arguments

/-- `VetoInput.readWitness`. -/
def VetoInput.readWitness (vi : VetoInput) : Reader VetoInput := do
  let arguments ← readVarstrList
  pure { vi with arguments }

/-- `CoinbaseInput.writeCommitment`. -/
def CoinbaseInput.writeCommitment (cb : CoinbaseInput) : Except CodecError (List UInt8) := do
  let arbitrary ← writeVarstr31 cb.arbitrary
  pure ([coinbaseInputType] ++ arbitrary)

/-- `CoinbaseInput.readCommitment`. -/
def CoinbaseInput.readCommitment : Reader CoinbaseInput := do
  let arbitrary ← readVarstr31
  pure { arbitrary }

/-! ## The interface -/

/-- `writeCommitment`, dispatched on the typed input. -/
def TypedInput.writeCommitment : TypedInput → Nat → Except CodecError (List UInt8)
  | .issuance ii, _ => ii.writeCommitment computeAssetID
  | .spend si, assetVersion => si.writeCommitment assetVersion
  | .coinbase cb, _ => cb.writeCommitment
  | .veto vi, assetVersion => vi.writeCommitment assetVersion

/-- `writeWitness`: the arguments of a spend or veto input, nothing for a coinbase. -/
def TypedInput.writeWitness : TypedInput → Except CodecError (List UInt8)
  | .issuance ii => ii.writeWitness
  | .spend si => si.writeWitness
  | .coinbase _ => pure []
  | .veto vi => vi.writeWitness

/-- `readCommitment`, into the typed input. -/
def TypedInput.readCommitment : TypedInput → Reader TypedInput
  | .issuance ii => .issuance <$> ii.readCommitment
  | .spend si => .spend <$> si.readCommitment
  | .coinbase _ => .coinbase <$> CoinbaseInput.readCommitment
  | .veto vi => .veto <$> vi.readCommitment

/-- `readWitness`, into the typed input. -/
def TypedInput.readWitness : TypedInput → Reader TypedInput
  | .issuance ii => .issuance <$> ii.readWitness computeAssetID
  | .spend si => .spend <$> si.readWitness
  | .coinbase cb => pure (.coinbase cb)
  | .veto vi => .veto <$> vi.readWitness

/-! ## Inputs -/

/-- `writeInputCommitment`; Go's method call on a nil typed input panics, which is the error
`nilTypedInput` here. -/
def TxInput.writeInputCommitment (t : TxInput) : Except CodecError (List UInt8) :=
  if t.assetVersion = 1 then
    match t.typedInput with
    | some ti => ti.writeCommitment computeAssetID t.assetVersion
    | none => throw .nilTypedInput
  else pure []

/-- `writeInputWitness`. -/
def TxInput.writeInputWitness (t : TxInput) : Except CodecError (List UInt8) :=
  if t.assetVersion = 1 then
    match t.typedInput with
    | some ti => ti.writeWitness
    | none => throw .nilTypedInput
  else pure []

/-- `TxInput.writeTo`. -/
def TxInput.writeTo (t : TxInput) : Except CodecError (List UInt8) := do
  let assetVersion ← writeVarint63 t.assetVersion
  let commitment ← writeExtensibleString t.commitmentSuffix (t.writeInputCommitment computeAssetID)
  let witness ← writeExtensibleString t.witnessSuffix t.writeInputWitness
  pure (assetVersion ++ commitment ++ witness)

/-- The reader of the commitment string: nothing unless the asset version is 1. -/
def TxInput.readInputCommitment (assetVersion : Nat) : Reader (Option TypedInput) :=
  if assetVersion ≠ 1 then pure none
  else some <$> (parseTypedInput >>= TypedInput.readCommitment)

/-- The reader of the witness string, into the typed input the commitment read. -/
def TxInput.readInputWitness (assetVersion : Nat) (typedInput : Option TypedInput) :
    Reader (Option TypedInput) :=
  if assetVersion = 1 then
    match typedInput with
    | some ti => some <$> ti.readWitness computeAssetID
    | none => throw .nilTypedInput
  else pure typedInput

/-- `TxInput.readFrom`, into a fresh input. -/
def TxInput.readFrom : Reader TxInput := do
  let assetVersion ← readVarint63
  let (typedInput, commitmentSuffix) ← readExtensibleString (TxInput.readInputCommitment assetVersion)
  let (typedInput, witnessSuffix) ←
    readExtensibleString (TxInput.readInputWitness computeAssetID assetVersion typedInput)
  pure { assetVersion, typedInput, commitmentSuffix, witnessSuffix }

/-! ## Reading back -/

/-- What a typed input reads back as: a spend or veto input with its commitment suffix twice, any
other as it was written. -/
def TypedInput.doubleCommitmentSuffix : TypedInput → TypedInput
  | .spend si =>
    .spend { si with spendCommitmentSuffix := si.spendCommitmentSuffix ++ si.spendCommitmentSuffix }
  | .veto vi =>
    .veto { vi with vetoCommitmentSuffix := vi.vetoCommitmentSuffix ++ vi.vetoCommitmentSuffix }
  | ti => ti

def TxInput.doubleCommitmentSuffix (t : TxInput) : TxInput :=
  { t with typedInput := t.typedInput.map TypedInput.doubleCommitmentSuffix }

/-- What the readers check beyond what the writers do: the spend commitments have VM version 1,
and an issuance's cached asset ID is the one its witness computes. -/
def TypedInput.Readable : TypedInput → Prop
  | .issuance ii => ii.assetId = ii.calcAssetID computeAssetID
  | .spend si => si.spendCommitment.vmVersion = 1
  | .coinbase _ => True
  | .veto vi => vi.spendCommitment.vmVersion = 1

/-- A typed input exactly under asset version 1, and readable. -/
def TxInput.Readable (t : TxInput) : Prop :=
  match t.typedInput with
  | some ti => t.assetVersion = 1 ∧ ti.Readable computeAssetID
  | none => t.assetVersion ≠ 1

instance TypedInput.decidableReadable : (ti : TypedInput) → Decidable (ti.Readable computeAssetID)
  | .issuance ii => inferInstanceAs (Decidable (ii.assetId = ii.calcAssetID computeAssetID))
  | .spend si => inferInstanceAs (Decidable (si.spendCommitment.vmVersion = 1))
  | .coinbase _ => inferInstanceAs (Decidable True)
  | .veto vi => inferInstanceAs (Decidable (vi.spendCommitment.vmVersion = 1))

instance TxInput.decidableReadable (t : TxInput) : Decidable (t.Readable computeAssetID) :=
  match h : t.typedInput with
  | some ti => decidable_of_iff (t.assetVersion = 1 ∧ ti.Readable computeAssetID) (by
      simp only [Readable, h])
  | none => decidable_of_iff (t.assetVersion ≠ 1) (by simp only [Readable, h])

/-- The suffix of the spend commitment of a spend or veto input; the empty string for any
other. -/
def TypedInput.spendSuffix : TypedInput → List UInt8
  | .spend si => si.spendCommitmentSuffix
  | .veto vi => vi.vetoCommitmentSuffix
  | _ => []

/-- Reading back changes a typed input exactly when its spend commitment has a suffix. -/
theorem TypedInput.doubleCommitmentSuffix_eq_self_iff {ti : TypedInput} :
    ti.doubleCommitmentSuffix = ti ↔ ti.spendSuffix = [] := by
  cases ti with
  | spend si =>
    cases si
    simp [doubleCommitmentSuffix, spendSuffix]
  | veto vi =>
    cases vi
    simp [doubleCommitmentSuffix, spendSuffix]
  | issuance _ => simp [doubleCommitmentSuffix, spendSuffix]
  | coinbase _ => simp [doubleCommitmentSuffix, spendSuffix]

variable {computeAssetID} {rest bs : List UInt8}

theorem parseTypedInput_run {t : UInt8} {ti : TypedInput} (h : inputTypeMap t = some ti) :
    parseTypedInput.run ([t] ++ rest) = .ok ti rest := by
  unfold parseTypedInput
  rw [run_bind_of_ok (readFull_run (show [t].length = 1 from rfl))]
  simp only [List.headD_cons, h]
  rfl

theorem IssuanceInput.assetID_of_eq {ii : IssuanceInput}
    (h : ii.assetId = ii.calcAssetID computeAssetID) : ii.assetID computeAssetID = ii.assetId := by
  unfold assetID
  split
  · exact h.symm
  · rfl

theorem IssuanceInput.readCommitment_run {ii : IssuanceInput}
    (h : ii.writeCommitment computeAssetID = .ok bs) :
    (parseTypedInput >>= TypedInput.readCommitment).run (bs ++ rest) =
      .ok (.issuance
        { (default : IssuanceInput) with
          nonce := ii.nonce
          assetId := ii.assetID computeAssetID
          amount := ii.amount }) rest := by
  simp only [writeCommitment, Except.bind_eq_ok, Except.pure_eq_ok] at h
  obtain ⟨nonce, hnonce, amount, hamount, rfl⟩ := h
  simp only [List.append_assoc]
  rw [run_bind_of_ok (parseTypedInput_run rfl)]
  unfold TypedInput.readCommitment readCommitment
  refine run_map_of_ok ?_
  rw [run_bind_of_ok (readVarstr31_run hnonce), run_bind_of_ok (readHash_run _),
    run_bind_of_ok (readVarint63_run hamount)]
  rfl

/-- The witness completes an issuance whose commitment was read. -/
theorem IssuanceInput.readWitness_run {ii ii₁ : IssuanceInput}
    (hid : ii₁.assetId = ii.calcAssetID computeAssetID) (h : ii.writeWitness = .ok bs) :
    (ii₁.readWitness computeAssetID).run (bs ++ rest) =
      .ok
        { ii₁ with
          assetDefinition := ii.assetDefinition
          vmVersion := ii.vmVersion
          issuanceProgram := ii.issuanceProgram
          arguments := ii.arguments } rest := by
  simp only [writeWitness, Except.bind_eq_ok, Except.pure_eq_ok] at h
  obtain ⟨definition, hdef, vmVersion, hvm, program, hprogram, arguments, harguments, rfl⟩ := h
  simp only [List.append_assoc]
  unfold readWitness
  rw [run_bind_of_ok (readVarstr31_run hdef), run_bind_of_ok (readVarint63_run hvm),
    run_bind_of_ok (readVarstr31_run hprogram)]
  -- the asset ID the witness computes is the cached one
  rw [if_neg (by simpa [calcAssetID] using hid.symm), run_bind_of_ok (readVarstrList_run harguments)]
  rfl

theorem SpendInput.readCommitment_run {si : SpendInput} (hv : si.spendCommitment.vmVersion = 1)
    (h : si.writeCommitment 1 = .ok bs) :
    (parseTypedInput >>= TypedInput.readCommitment).run (bs ++ rest) =
      .ok (.spend
        { (default : SpendInput) with
          spendCommitment := si.spendCommitment
          spendCommitmentSuffix := si.spendCommitmentSuffix ++ si.spendCommitmentSuffix }) rest := by
  simp only [writeCommitment, Except.bind_eq_ok, Except.pure_eq_ok] at h
  obtain ⟨commitment, hcommitment, rfl⟩ := h
  rw [List.append_assoc, run_bind_of_ok (parseTypedInput_run rfl)]
  unfold TypedInput.readCommitment readCommitment
  refine run_map_of_ok ?_
  rw [run_bind_of_ok (SpendCommitment.readFrom_run hv hcommitment)]
  rfl

theorem VetoInput.readCommitment_run {vi : VetoInput} (hv : vi.spendCommitment.vmVersion = 1)
    (h : vi.writeCommitment 1 = .ok bs) :
    (parseTypedInput >>= TypedInput.readCommitment).run (bs ++ rest) =
      .ok (.veto
        { (default : VetoInput) with
          spendCommitment := vi.spendCommitment
          vetoCommitmentSuffix := vi.vetoCommitmentSuffix ++ vi.vetoCommitmentSuffix
          vote := vi.vote }) rest := by
  simp only [writeCommitment, Except.bind_eq_ok, Except.pure_eq_ok] at h
  obtain ⟨commitment, hcommitment, vote, hvote, rfl⟩ := h
  simp only [List.append_assoc]
  rw [run_bind_of_ok (parseTypedInput_run rfl)]
  unfold TypedInput.readCommitment readCommitment
  refine run_map_of_ok ?_
  rw [run_bind_of_ok (SpendCommitment.readFrom_run hv hcommitment),
    run_bind_of_ok (readVarstr31_run hvote)]
  rfl

theorem CoinbaseInput.readCommitment_run {cb : CoinbaseInput} (h : cb.writeCommitment = .ok bs) :
    (parseTypedInput >>= TypedInput.readCommitment).run (bs ++ rest) = .ok (.coinbase cb) rest := by
  simp only [writeCommitment, Except.bind_eq_ok, Except.pure_eq_ok] at h
  obtain ⟨arbitrary, harbitrary, rfl⟩ := h
  rw [List.append_assoc, run_bind_of_ok (parseTypedInput_run rfl)]
  unfold TypedInput.readCommitment readCommitment
  refine run_map_of_ok ?_
  rw [run_bind_of_ok (readVarstr31_run harbitrary)]
  rfl

theorem SpendInput.readWitness_run {si si₁ : SpendInput} (h : si.writeWitness = .ok bs) :
    si₁.readWitness.run (bs ++ rest) = .ok { si₁ with arguments := si.arguments } rest := by
  unfold readWitness
  rw [run_bind_of_ok (readVarstrList_run h)]
  rfl

theorem VetoInput.readWitness_run {vi vi₁ : VetoInput} (h : vi.writeWitness = .ok bs) :
    vi₁.readWitness.run (bs ++ rest) = .ok { vi₁ with arguments := vi.arguments } rest := by
  unfold readWitness
  rw [run_bind_of_ok (readVarstrList_run h)]
  rfl

/-- A typed input reads back from its commitment and then its witness, with its commitment suffix
twice: the commitment leaves a typed input that the witness completes. -/
theorem TypedInput.read_run {ti : TypedInput} {c : List UInt8} (hr : ti.Readable computeAssetID)
    (hc : ti.writeCommitment computeAssetID 1 = .ok c) :
    ∃ ti₁, (parseTypedInput >>= TypedInput.readCommitment).run (c ++ rest) = .ok ti₁ rest ∧
      ∀ {w rest' : List UInt8}, ti.writeWitness = .ok w →
        (ti₁.readWitness computeAssetID).run (w ++ rest') = .ok ti.doubleCommitmentSuffix rest' := by
  cases ti with
  | issuance ii =>
    -- the cached asset ID the commitment carries is the computed one
    have hid : ii.assetID computeAssetID = ii.assetId := IssuanceInput.assetID_of_eq hr
    refine ⟨_, IssuanceInput.readCommitment_run hc, fun hw => run_map_of_ok ?_⟩
    refine (IssuanceInput.readWitness_run ?_ hw).trans ?_
    · exact hid.trans hr
    · rw [hid]
  | spend si =>
    exact ⟨_, SpendInput.readCommitment_run hr hc, fun hw => run_map_of_ok (SpendInput.readWitness_run hw)⟩
  | coinbase cb =>
    refine ⟨_, CoinbaseInput.readCommitment_run hc, fun hw => ?_⟩
    cases Iff.mp Except.pure_eq_ok hw
    rfl
  | veto vi =>
    exact ⟨_, VetoInput.readCommitment_run hr hc, fun hw => run_map_of_ok (VetoInput.readWitness_run hw)⟩

/-- An input reads back as written, with the commitment suffix of a spend or veto input twice. -/
theorem TxInput.readFrom_run {t : TxInput} (hr : t.Readable computeAssetID)
    (h : t.writeTo computeAssetID = .ok bs) :
    (TxInput.readFrom computeAssetID).run (bs ++ rest) = .ok t.doubleCommitmentSuffix rest := by
  simp only [writeTo, Except.bind_eq_ok, Except.pure_eq_ok] at h
  obtain ⟨av, hav, commitment, hcommitment, witness, hwitness, rfl⟩ := h
  simp only [List.append_assoc]
  unfold readFrom
  rw [run_bind_of_ok (readVarint63_run hav)]
  unfold Readable at hr
  unfold writeInputCommitment at hcommitment
  unfold writeInputWitness at hwitness
  split at hr
  · -- asset version 1: the typed input, its commitment and then its witness
    rename_i ti hti
    obtain ⟨hv, hr⟩ := hr
    simp only [hv, hti, if_true] at hcommitment hwitness
    obtain ⟨c, hc, hcommitment⟩ := Iff.mp Except.bind_eq_ok hcommitment
    obtain ⟨w, hw, hwitness⟩ := Iff.mp Except.bind_eq_ok hwitness
    obtain ⟨ti₁, hti₁, hwit⟩ := TypedInput.read_run hr hc
    have hread : (readInputCommitment t.assetVersion).run (c ++ t.commitmentSuffix) =
        .ok (some ti₁) t.commitmentSuffix := by
      rw [readInputCommitment, hv, if_neg (by decide)]
      exact run_map_of_ok hti₁
    rw [run_bind_of_ok (readExtensibleString_run hread hcommitment)]
    have hwread : (readInputWitness computeAssetID t.assetVersion (some ti₁)).run
        (w ++ t.witnessSuffix) = .ok (some ti.doubleCommitmentSuffix) t.witnessSuffix := by
      rw [readInputWitness, hv, if_pos rfl]
      exact run_map_of_ok (hwit hw)
    rw [run_bind_of_ok (readExtensibleString_run hwread hwitness)]
    simp only [doubleCommitmentSuffix, hti, Option.map_some]
    rfl
  · -- any other asset version: both strings are only their suffixes
    rename_i hti
    simp only [if_neg hr] at hcommitment hwitness
    have hread : (readInputCommitment t.assetVersion).run ([] ++ t.commitmentSuffix) =
        .ok none t.commitmentSuffix := by
      rw [readInputCommitment, if_pos hr]
      rfl
    rw [run_bind_of_ok (readExtensibleString_run hread hcommitment)]
    have hwread : (readInputWitness computeAssetID t.assetVersion none).run
        ([] ++ t.witnessSuffix) = .ok none t.witnessSuffix := by
      rw [readInputWitness, if_neg hr]
      rfl
    rw [run_bind_of_ok (readExtensibleString_run hwread hwitness)]
    simp only [doubleCommitmentSuffix, hti, Option.map_none]
    rfl

end Codec

end KuskCore.Types
