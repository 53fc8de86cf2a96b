import KuskCore.Vm.Machine

/-!
# Push, control, crypto and introspection opcodes

`protocol/vm/pushdata.go`, `control.go` (all but `CHECKPREDICATE`, which runs a child machine and
lives with `step`), `crypto.go` and `introspection.go`. These read the shared `Context` and call
the hash and signature functions of `Crypto`.
-/

namespace KuskCore.Vm

open GoInt KuskCore.Checked

variable (cr : Crypto) (ctx : Context)

/-! ## Pushing data -/

/-- `opFalse`. -/
def opFalse : VmM Unit := do
  applyCost 1
  pushBool false false

theorem opFalse_eq_ok {vm vm' : VM} {u : Unit} :
    opFalse.run vm = .ok u vm' ↔ 1 ≤ vm.runLimit ∧ 8 ≤ int64 (vm.runLimit - 1) ∧
      vm' = { vm with
        runLimit := int64 (int64 (vm.runLimit - 1) - 8)
        dataStack := [] :: vm.dataStack } := by
  unfold opFalse pushBool
  simp only [EStateM.run_bind_eq_ok, applyCost_eq_ok, pushDataStack_false_eq_ok, exists_and_left,
    exists_eq_left, and_assoc]
  simp [boolBytes]

/-- `opPushdata`: the instruction's data, copied. -/
def opPushdata : VmM Unit := do
  applyCost 1
  pushDataStack (← get).data false

theorem opPushdata_eq_ok {vm vm' : VM} {u : Unit} :
    opPushdata.run vm = .ok u vm' ↔ 1 ≤ vm.runLimit ∧
      8 + (vm.data.length : Int) ≤ int64 (vm.runLimit - 1) ∧
      vm' = { vm with
        runLimit := int64 (int64 (vm.runLimit - 1) - (8 + vm.data.length))
        dataStack := vm.data :: vm.dataStack } := by
  unfold opPushdata
  simp only [EStateM.run_bind_eq_ok, applyCost_eq_ok, EStateM.run_get_eq_ok,
    pushDataStack_false_eq_ok, exists_and_left, exists_eq_left, exists_eq_left', and_assoc]
  simp

/-- `opNop`. -/
def opNop : VmM Unit := applyCost 1

/-! ## Control -/

/-- `opVerify`. -/
def opVerify : VmM Unit := do
  applyCost 1
  let p ← pop true
  if asBool p then pure () else throwErr .verifyFailed

/-- `opFail`. -/
def opFail : VmM Unit := do
  applyCost 1
  throwErr .returnExecuted

/-- `binary.LittleEndian.Uint32(vm.data)`, which panics on fewer than four bytes. -/
def dataUint32 : VmM Nat := do
  let d := (← get).data
  if d.length < 4 then throw .panic else pure (leUint32 d)

/-- `opJump`. -/
def opJump : VmM Unit := do
  applyCost 1
  let address ← dataUint32
  modify fun vm => { vm with nextPC := address }

theorem opJump_eq_ok {vm vm' : VM} {u : Unit} :
    opJump.run vm = .ok u vm' ↔ 1 ≤ vm.runLimit ∧ 4 ≤ vm.data.length ∧
      vm' = { vm with runLimit := int64 (vm.runLimit - 1), nextPC := leUint32 vm.data } := by
  unfold opJump dataUint32
  simp only [EStateM.run_bind_eq_ok, applyCost_eq_ok, EStateM.run_get_eq_ok, EStateM.run_ite_eq_ok,
    EStateM.run_throw_ne_ok, EStateM.run_pure_eq_ok, EStateM.run_modify_eq_ok]
  constructor
  · rintro ⟨_, _, ⟨h₁, rfl⟩, _, _, ⟨_, _, ⟨rfl, rfl⟩, (⟨-, ⟨⟩⟩ | ⟨h₄, rfl, rfl⟩)⟩, rfl⟩
    exact ⟨h₁, by simpa using h₄, rfl⟩
  · rintro ⟨h₁, h₄, rfl⟩
    exact ⟨(), _, ⟨h₁, rfl⟩, _, _, ⟨_, _, ⟨rfl, rfl⟩, .inr ⟨by simpa using h₄, rfl, rfl⟩⟩, rfl⟩

/-- `opJumpIf`. -/
def opJumpIf : VmM Unit := do
  applyCost 1
  let p ← pop true
  if asBool p then
    let address ← dataUint32
    modify fun vm => { vm with nextPC := address }

/-! ## Crypto -/

/-- The `cost` of `doHash`: at least 64 gas, and one per byte hashed. -/
def hashCost (x : Bytes) : Int := if (x.length : Int) < 64 then 64 else x.length

/-- `doHash`. -/
def doHash (hash : Bytes → Bytes) : VmM Unit := do
  let x ← pop false
  applyCost (hashCost x)
  pushDataStack (hash x) false

/-- `opSha256`. -/
def opSha256 : VmM Unit := doHash cr.sha256

/-- `opSha3`. -/
def opSha3 : VmM Unit := doHash cr.sha3

/-- `opCheckSig`. -/
def opCheckSig : VmM Unit := do
  applyCost 1024
  let pubkeyBytes ← pop true
  let msg ← pop true
  let sig ← pop true
  if msg.length ≠ 32 then throwErr .badValue
  else if pubkeyBytes.length ≠ 32 then pushBool false true
  else pushBool (cr.ed25519Verify pubkeyBytes msg sig) true

/-- A key of the wrong length fails the check without an error; a message of the wrong length is
an error. -/
theorem opCheckSig_eq_ok {vm vm' : VM} {u : Unit} :
    (opCheckSig cr).run vm = .ok u vm' ↔
      ∃ pk msg sig rest, vm.dataStack = pk :: msg :: sig :: rest ∧
      1024 ≤ vm.runLimit ∧ msg.length = 32 ∧
      vm' = { vm with
        runLimit := int64 (vm.runLimit - 1024)
        deferredCost := int64 (int64 (int64 (int64 (vm.deferredCost + -(8 + pk.length)) +
          -(8 + msg.length)) + -(8 + sig.length)) +
          (8 + (boolBytes (decide (pk.length = 32) && cr.ed25519Verify pk msg sig)).length))
        dataStack := boolBytes (decide (pk.length = 32) && cr.ed25519Verify pk msg sig) :: rest } := by
  unfold opCheckSig pushBool
  rcases h : vm.dataStack with _ | ⟨pk, _ | ⟨msg, _ | ⟨sig, rest⟩⟩⟩
  · simp [-EStateM.run_bind, EStateM.run_bind_eq_ok, applyCost_eq_ok, pop_true_eq_ok, h]
  · simp [-EStateM.run_bind, EStateM.run_bind_eq_ok, applyCost_eq_ok, pop_true_eq_ok, h]
  · simp [-EStateM.run_bind, EStateM.run_bind_eq_ok, applyCost_eq_ok, pop_true_eq_ok, h]
  · simp [-EStateM.run_bind, EStateM.run_bind_eq_ok, applyCost_eq_ok, pop_true_eq_ok, h,
      EStateM.run_ite_eq_ok, pushDataStack_true_eq_ok, and_assoc]
    by_cases hpk : pk.length = 32 <;> simp [hpk]

/-- `k` deferred pops, in pop order. -/
def popN : Nat → VmM (List Bytes)
  | 0 => pure []
  | k + 1 => do
    let x ← pop true
    let xs ← popN k
    pure (x :: xs)

/-- The matching loop of `opCheckMultiSig`: a signature is consumed when the current public key
verifies it, and every pass consumes a public key. -/
def matchSigs (msg : Bytes) : List Bytes → List Bytes → List Bytes
  | pk :: pks, sig :: sigs =>
    if cr.ed25519Verify pk msg sig then matchSigs msg pks sigs else matchSigs msg pks (sig :: sigs)
  | _, sigs => sigs

/-- `opCheckMultiSig`. -/
def opCheckMultiSig : VmM Unit := do
  let numPubkeys ← popBigInt true >>= fun n => liftErr (bigIntInt64 n)
  match mulInt64 numPubkeys 1024 with
  | none => throwErr .badValue
  | some pubCost =>
    if numPubkeys < 0 then throwErr .badValue
    else
      applyCost pubCost
      let numSigs ← popBigInt true >>= fun n => liftErr (bigIntInt64 n)
      if numSigs < 0 ∨ numSigs > numPubkeys ∨ (numPubkeys > 0 ∧ numSigs = 0) then
        throwErr .badValue
      else
        let pubkeyByteses ← popN numPubkeys.toNat
        let msg ← pop true
        if msg.length ≠ 32 then throwErr .badValue
        else
          let sigs ← popN numSigs.toNat
          if pubkeyByteses.any (fun p => p.length ≠ 32) then pushBool false true
          else pushBool (matchSigs cr msg pubkeyByteses sigs).isEmpty true

/-- `opTxSigHash`. -/
def opTxSigHash : VmM Unit := do
  applyCost 256
  match ctx.txSigHash with
  | none => throwErr .context
  | some h => pushDataStack h false

theorem opTxSigHash_eq_ok {vm vm' : VM} {u : Unit} :
    (opTxSigHash ctx).run vm = .ok u vm' ↔ ∃ m, ctx.txSigHash = some m ∧ 256 ≤ vm.runLimit ∧
      8 + (m.length : Int) ≤ int64 (vm.runLimit - 256) ∧
      vm' = { vm with
        runLimit := int64 (int64 (vm.runLimit - 256) - (8 + m.length))
        dataStack := m :: vm.dataStack } := by
  unfold opTxSigHash
  cases ctx.txSigHash with
  | none => simp [-EStateM.run_bind, EStateM.run_bind_eq_ok]
  | some m =>
    simp [-EStateM.run_bind, EStateM.run_bind_eq_ok, applyCost_eq_ok, pushDataStack_false_eq_ok,
      and_assoc]

/-- `opHash160`. -/
def opHash160 : VmM Unit := do
  let data ← pop false
  applyCost (data.length + 64)
  pushDataStack (cr.ripemd160 data) false

theorem opHash160_eq_ok {vm vm' : VM} {u : Unit} :
    (opHash160 cr).run vm = .ok u vm' ↔ ∃ x rest, vm.dataStack = x :: rest ∧
      x.length + 64 ≤ int64 (vm.runLimit + (8 + x.length)) ∧
      8 + ((cr.ripemd160 x).length : Int) ≤
        int64 (int64 (vm.runLimit + (8 + x.length)) - (x.length + 64)) ∧
      vm' = { vm with
        runLimit := int64 (int64 (int64 (vm.runLimit + (8 + x.length)) - (x.length + 64)) -
          (8 + (cr.ripemd160 x).length))
        dataStack := cr.ripemd160 x :: rest } := by
  unfold opHash160
  simp only [EStateM.run_bind_eq_ok, pop_false_eq_ok, applyCost_eq_ok,
    pushDataStack_false_eq_ok, exists_and_left, exists_eq_left, and_assoc]
  constructor
  · rintro ⟨x, _, ⟨rest, hs, rfl⟩, h₁, h₂, _, rfl⟩
    exact ⟨x, rest, hs, h₁, h₂, rfl⟩
  · rintro ⟨x, rest, hs, h₁, h₂, rfl⟩
    exact ⟨x, _, ⟨rest, hs, rfl⟩, h₁, h₂, (), rfl⟩

/-! ## Introspection -/

/-- `opCheckOutput`: the alt stack goes to `CheckOutput` as Go's slice, bottom item first and
`nil` while nothing has been pushed onto it. -/
def opCheckOutput : VmM Unit := do
  applyCost 16
  let code ← pop true
  let vmVersion ← popBigInt true
  let assetID ← pop true
  let amountInt ← popBigInt true
  if 2 ^ 64 ≤ amountInt then throwErr .badValue
  else
    let index ← popBigInt true
    match ctx.checkOutput with
    | none => throwErr .context
    | some check =>
      let vm ← get
      match check (uint64 index) amountInt assetID (uint64 vmVersion) code vm.altStackValue
          vm.expansionReserved with
      | .ok ok => pushBool ok true
      | .error e => throw e

/-- `opAsset`. -/
def opAsset : VmM Unit := do
  applyCost 1
  match ctx.assetID with
  | none => throwErr .context
  | some a => pushDataStack a true

/-- `opAmount`. -/
def opAmount : VmM Unit := do
  applyCost 1
  match ctx.amount with
  | none => throwErr .context
  | some a => pushBigInt a true

/-- `opProgram`: the context's code, not the running predicate. -/
def opProgram : VmM Unit := do
  applyCost 1
  pushDataStack ctx.code true

theorem opProgram_eq_ok {vm vm' : VM} {u : Unit} :
    (opProgram ctx).run vm = .ok u vm' ↔ 1 ≤ vm.runLimit ∧
      vm' = { vm with
        runLimit := int64 (vm.runLimit - 1)
        deferredCost := int64 (vm.deferredCost + (8 + ctx.code.length))
        dataStack := ctx.code :: vm.dataStack } := by
  unfold opProgram
  simp only [EStateM.run_bind_eq_ok, applyCost_eq_ok, pushDataStack_true_eq_ok]
  constructor
  · rintro ⟨_, _, ⟨h₁, rfl⟩, rfl⟩
    exact ⟨h₁, rfl⟩
  · rintro ⟨h₁, rfl⟩
    exact ⟨(), _, ⟨h₁, rfl⟩, rfl⟩

/-- `opIndex`. -/
def opIndex : VmM Unit := do
  applyCost 1
  match ctx.destPos with
  | none => throwErr .context
  | some p => pushBigInt p true

/-- `opEntryID`. -/
def opEntryID : VmM Unit := do
  applyCost 1
  pushDataStack ctx.entryID true

/-- `opOutputID`. -/
def opOutputID : VmM Unit := do
  applyCost 1
  match ctx.spentOutputID with
  | none => throwErr .context
  | some o => pushDataStack o true

/-- `opBlockHeight`. -/
def opBlockHeight : VmM Unit := do
  applyCost 1
  match ctx.blockHeight with
  | none => throwErr .context
  | some h => pushBigInt h true

end KuskCore.Vm
