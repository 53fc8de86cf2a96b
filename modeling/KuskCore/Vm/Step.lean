import KuskCore.Vm.StackOps
import KuskCore.Vm.DataOps
import KuskCore.Vm.TxOps

/-!
# `CHECKPREDICATE`, the step, the run loop and `Verify`

`protocol/vm/vm.go` and `opCheckPredicate` of `control.go`. `CHECKPREDICATE` runs a child machine
on the top `n` items; `step` receives that child run as the argument `child`, and `loop` ties the
knot with fuel: at fuel `k + 1` a child runs with fuel `k`. A panic or the end of the fuel inside
a child ends the parent too, as a Go panic would unwind through `opCheckPredicate` to the
`recover` of `Verify`.
-/

namespace KuskCore.Vm

open GoInt KuskCore.Checked

variable (cr : Crypto) (ctx : Context)

/-- The machine `opCheckPredicate` starts for `predicate` on `stack`: zero values elsewhere, so
its expansion flag is off. -/
def childVM (predicate : Bytes) (limit : Int) (depth : Nat) (stack : List Bytes) : VM :=
  { program := predicate, pc := 0, nextPC := 0, runLimit := limit, deferredCost := 0,
    expansionReserved := false, data := [], depth := depth + 1, dataStack := stack, altStack := [],
    altStackNil := true }

/-- `opCheckPredicate`: 256 gas of which 192 come back; `n = 0` hands over the whole stack and
`limit = 0` the whole run limit. The child's remaining run limit and stacks are refunded as a
deferred cost, whether it succeeded or not. -/
def opCheckPredicate (child : VmM Unit) : VmM Unit := do
  applyCost 256
  deferCost (-256 + 64)
  let limit ← popBigInt true >>= fun n => liftErr (bigIntInt64 n)
  let predicate ← pop true
  let n ← popBigInt true >>= fun n => liftErr (bigIntInt64 n)
  let vm ← get
  let l : Int := vm.dataStack.length
  let n := if n = 0 then l else n
  if n > l then throwErr .dataStackUnderflow
  else
    let limit := if limit = 0 then vm.runLimit else limit
    applyCost limit
    let vm ← get
    let c := childVM predicate limit vm.depth (vm.dataStack.take n.toNat)
    set { vm with dataStack := vm.dataStack.drop n.toNat }
    let (childOk, c) ← match child c with
      | .ok _ c => pure (true, c)
      | .error (.err _) c => pure (false, c)
      | .error e _ => throw e
    deferCost (int64 (-c.runLimit))
    deferCost (-stackCost c.dataStack)
    deferCost (-stackCost c.altStack)
    pushBool (childOk && !falseResult c) true

/-- `ops[op].fn`, with `child` for `CHECKPREDICATE`. -/
def opFn (child : VmM Unit) : OpFn → VmM Unit
  | .opFalse => opFalse
  | .opPushdata => opPushdata
  | .opNop => opNop
  | .opJump => opJump
  | .opJumpIf => opJumpIf
  | .opVerify => opVerify
  | .opFail => opFail
  | .opCheckPredicate => opCheckPredicate child
  | .opToAltStack => opToAltStack
  | .opFromAltStack => opFromAltStack
  | .op2Drop => op2Drop
  | .op2Dup => op2Dup
  | .op3Dup => op3Dup
  | .op2Over => op2Over
  | .op2Rot => op2Rot
  | .op2Swap => op2Swap
  | .opIfDup => opIfDup
  | .opDepth => opDepth
  | .opDrop => opDrop
  | .opDup => opDup
  | .opNip => opNip
  | .opOver => opOver
  | .opPick => opPick
  | .opRoll => opRoll
  | .opRot => opRot
  | .opSwap => opSwap
  | .opTuck => opTuck
  | .opCat => opCat
  | .opSubstr => opSubstr
  | .opLeft => opLeft
  | .opRight => opRight
  | .opSize => opSize
  | .opCatpushdata => opCatpushdata
  | .opInvert => opInvert
  | .opAnd => opAnd
  | .opOr => opOr
  | .opXor => opXor
  | .opEqual => opEqual
  | .opEqualVerify => opEqualVerify
  | .op1Add => op1Add
  | .op1Sub => op1Sub
  | .op2Mul => op2Mul
  | .op2Div => op2Div
  | .opNot => opNot
  | .op0NotEqual => op0NotEqual
  | .opAdd => opAdd
  | .opSub => opSub
  | .opMul => opMul
  | .opDiv => opDiv
  | .opMod => opMod
  | .opLshift => opLshift
  | .opRshift => opRshift
  | .opBoolAnd => opBoolAnd
  | .opBoolOr => opBoolOr
  | .opNumEqual => doNumCompare .cmpEqual
  | .opNumEqualVerify => opNumEqualVerify
  | .opNumNotEqual => doNumCompare .cmpNotEqual
  | .opLessThan => doNumCompare .cmpLess
  | .opGreaterThan => doNumCompare .cmpGreater
  | .opLessThanOrEqual => doNumCompare .cmpLessEqual
  | .opGreaterThanOrEqual => doNumCompare .cmpGreaterEqual
  | .opMin => opMin
  | .opMax => opMax
  | .opWithin => opWithin
  | .opSha256 => opSha256 cr
  | .opSha3 => opSha3 cr
  | .opHash160 => opHash160 cr
  | .opCheckSig => opCheckSig cr
  | .opCheckMultiSig => opCheckMultiSig cr
  | .opTxSigHash => opTxSigHash ctx
  | .opCheckOutput => opCheckOutput ctx
  | .opAsset => opAsset ctx
  | .opAmount => opAmount ctx
  | .opProgram => opProgram ctx
  | .opIndex => opIndex ctx
  | .opEntryID => opEntryID ctx
  | .opOutputID => opOutputID ctx
  | .opBlockHeight => opBlockHeight ctx

/-- `step`: an expansion opcode costs one and is refused when expansion is reserved; any other
opcode runs its function, and the deferred cost it left is applied before `pc` moves on. -/
def step (child : VmM Unit) : VmM Unit := do
  let vm ← get
  let inst ← liftErr (parseOp vm.program vm.pc)
  set { vm with nextPC := uint32 (vm.pc + inst.len) }
  if isExpansion inst.op then
    if vm.expansionReserved then throwErr .disallowedOpcode
    else
      modify fun vm => { vm with pc := vm.nextPC }
      applyCost 1
  else
    modify fun vm => { vm with deferredCost := 0, data := inst.data }
    opFn cr ctx child (ops inst.op)
    applyCost (← get).deferredCost
    modify fun vm => { vm with pc := vm.nextPC }

section Spec

variable {vm vm'' : VM}

/-- Past decoding, a step that is not an expansion runs its opcode from the decoded instruction. -/
theorem step_run_of_parse {child : VmM Unit} {inst : Instruction}
    (hp : parseOp vm.program vm.pc = .ok inst) (hx : isExpansion inst.op = false) :
    (step cr ctx child).run vm = (do
      opFn cr ctx child (ops inst.op)
      applyCost (← get).deferredCost
      modify fun (vm : VM) => { vm with pc := vm.nextPC } : VmM Unit).run
        { vm with nextPC := uint32 (vm.pc + inst.len), deferredCost := 0, data := inst.data } := by
  unfold step
  simp only [EStateM.run_bind, EStateM.run_get, hp, liftErr, EStateM.run_pure, EStateM.run_set, hx,
    Bool.false_eq_true, if_false, EStateM.run_modify]

/-- A step succeeds when its opcode does and the deferred cost the opcode left is covered. -/
theorem step_eq_ok {child : VmM Unit} {inst : Instruction} {u : Unit}
    (hp : parseOp vm.program vm.pc = .ok inst) (hx : isExpansion inst.op = false) :
    (step cr ctx child).run vm = .ok u vm'' ↔ ∃ vm', (opFn cr ctx child (ops inst.op)).run
        { vm with nextPC := uint32 (vm.pc + inst.len), deferredCost := 0, data := inst.data } =
        .ok () vm' ∧ vm'.deferredCost ≤ vm'.runLimit ∧
      vm'' = { vm' with runLimit := int64 (vm'.runLimit - vm'.deferredCost), pc := vm'.nextPC } := by
  rw [step_run_of_parse cr ctx hp hx]
  simp only [EStateM.run_bind_eq_ok, EStateM.run_get_eq_ok, applyCost_eq_ok,
    EStateM.run_modify_eq_ok]
  constructor
  · rintro ⟨⟨⟩, vm', h, _, _, ⟨rfl, rfl⟩, _, _, ⟨hc, rfl⟩, rfl⟩
    exact ⟨vm', h, hc, rfl⟩
  · rintro ⟨vm', h, hc, rfl⟩
    exact ⟨(), vm', h, vm', vm', ⟨rfl, rfl⟩, (), _, ⟨hc, rfl⟩, rfl⟩

end Spec

/-- The `for` loop of `run`, with fuel; each step runs its children with the fuel left. -/
def loop : Nat → VmM Unit
  | 0 => throw .outOfFuel
  | k + 1 => do
    if (← get).pc < uint32 (← get).program.length then
      step cr ctx (modify (fun vm => { vm with pc := 0 }) *> loop k)
      loop k

section Spec

variable {vm vm'' : VM}

/-- One pass of the loop: step while `pc` is inside the program, stop once it is not. -/
theorem loop_succ_eq_ok {k : Nat} {u : Unit} :
    (loop cr ctx (k + 1)).run vm = .ok u vm'' ↔
      (vm.pc < uint32 vm.program.length ∧ ∃ vm',
        (step cr ctx (modify (fun vm => { vm with pc := 0 }) *> loop cr ctx k)).run vm = .ok () vm' ∧
        (loop cr ctx k).run vm' = .ok u vm'') ∨
      (¬ vm.pc < uint32 vm.program.length ∧ vm = vm'') := by
  rw [loop]
  simp only [EStateM.run_bind_eq_ok, EStateM.run_get_eq_ok, EStateM.run_ite_eq_ok,
    EStateM.run_pure_eq_ok, exists_and_left, exists_eq_left', and_assoc, true_and]
  constructor
  · rintro (⟨h, ⟨⟩, vm', hs, hl⟩ | h)
    · exact .inl ⟨h, vm', hs, hl⟩
    · exact .inr h
  · rintro (⟨h, vm', hs, hl⟩ | h)
    · exact .inl ⟨h, (), vm', hs, hl⟩
    · exact .inr h

theorem loop_zero_ne_ok {u : Unit} : ¬ (loop cr ctx 0).run vm = .ok u vm'' := by
  rw [loop]
  exact EStateM.run_throw_ne_ok

end Spec

/-- `run`: from `pc = 0`, step until `pc` leaves the program. -/
def run (fuel : Nat) : VmM Unit := do
  modify fun vm => { vm with pc := 0 }
  loop cr ctx fuel

/-- The machine `Verify` starts from. -/
def initialVM (gasLimit : Int) : VM :=
  { program := ctx.code, pc := 0, nextPC := 0, runLimit := gasLimit, deferredCost := 0,
    expansionReserved := ctx.txVersion == some 1, data := [], depth := 0, dataStack := [],
    altStack := [], altStackNil := true }

/-- The body of `Verify` after the version check. -/
def verifyBody (fuel : Nat) : VmM Unit := do
  ctx.stateData.forM fun state => pushAltStack state false
  ctx.arguments.forM fun arg => pushDataStack arg false
  run cr ctx fuel
  if falseResult (← get) then throwErr .falseVMResult

section Spec

variable {vm vm' : VM}

/-- Pushing a list of items, each paid at once, costs their `stackCost` and leaves the last on
top; within an `int64` run limit nothing wraps. -/
theorem forM_pushDataStack_eq_ok (xs : List Bytes) (h₀ : 0 ≤ vm.runLimit)
    (h₁ : vm.runLimit ≤ maxInt64) {u : Unit} :
    (xs.forM fun x => pushDataStack x false).run vm = .ok u vm' ↔
      stackCost xs ≤ vm.runLimit ∧
      vm' = { vm with
        runLimit := vm.runLimit - stackCost xs
        dataStack := xs.reverse ++ vm.dataStack } := by
  unfold maxInt64 at h₁
  induction xs generalizing vm with
  | nil =>
    simp only [EStateM.run_forM_nil_eq_ok, stackCost_nil, Int.sub_zero, List.reverse_nil,
      List.nil_append]
    exact ⟨fun h => ⟨h₀, h ▸ rfl⟩, fun h => h.2 ▸ rfl⟩
  | cons x xs ih =>
    have hx := stackCost_nonneg xs
    -- the first push leaves a run limit in range, where the induction hypothesis applies
    have hR : 8 + (x.length : Int) ≤ vm.runLimit →
        int64 (vm.runLimit - (8 + x.length)) = vm.runLimit - (8 + x.length) :=
      fun h => int64_of_le (by omega) (by omega)
    rw [EStateM.run_forM_cons_eq_ok]
    simp only [pushDataStack_false_eq_ok, stackCost_cons, List.reverse_cons, List.append_assoc,
      List.singleton_append]
    constructor
    · rintro ⟨_, ⟨hc, rfl⟩, hrest⟩
      rw [ih (by simp only [hR hc]; omega) (by simp only [hR hc]; omega)] at hrest
      obtain ⟨hc', rfl⟩ := hrest
      simp only [hR hc] at hc' ⊢
      refine ⟨by omega, ?_⟩
      congr 1
      omega
    · rintro ⟨hc, rfl⟩
      have hc₁ : 8 + (x.length : Int) ≤ vm.runLimit := by omega
      refine ⟨_, ⟨hc₁, rfl⟩, ?_⟩
      rw [ih (by simp only [hR hc₁]; omega) (by simp only [hR hc₁]; omega)]
      simp only [hR hc₁]
      refine ⟨by omega, ?_⟩
      congr 1
      omega

/-- The same for the alternate stack, where `Verify` puts the state data. -/
theorem forM_pushAltStack_eq_ok (xs : List Bytes) (h₀ : 0 ≤ vm.runLimit)
    (h₁ : vm.runLimit ≤ maxInt64) {u : Unit} :
    (xs.forM fun x => pushAltStack x false).run vm = .ok u vm' ↔
      stackCost xs ≤ vm.runLimit ∧
      vm' = { vm with
        runLimit := vm.runLimit - stackCost xs
        altStack := xs.reverse ++ vm.altStack
        altStackNil := vm.altStackNil && xs.isEmpty } := by
  unfold maxInt64 at h₁
  induction xs generalizing vm with
  | nil =>
    simp only [EStateM.run_forM_nil_eq_ok, stackCost_nil, Int.sub_zero, List.reverse_nil,
      List.nil_append, List.isEmpty_nil, Bool.and_true]
    exact ⟨fun h => ⟨h₀, h ▸ rfl⟩, fun h => h.2 ▸ rfl⟩
  | cons x xs ih =>
    have hx := stackCost_nonneg xs
    have hR : 8 + (x.length : Int) ≤ vm.runLimit →
        int64 (vm.runLimit - (8 + x.length)) = vm.runLimit - (8 + x.length) :=
      fun h => int64_of_le (by omega) (by omega)
    rw [EStateM.run_forM_cons_eq_ok]
    simp only [pushAltStack_false_eq_ok, stackCost_cons, List.reverse_cons, List.append_assoc,
      List.singleton_append, List.isEmpty_cons, Bool.and_false]
    constructor
    · rintro ⟨_, ⟨hc, rfl⟩, hrest⟩
      rw [ih (by simp only [hR hc]; omega) (by simp only [hR hc]; omega)] at hrest
      obtain ⟨hc', rfl⟩ := hrest
      simp only [hR hc] at hc' ⊢
      refine ⟨by omega, ?_⟩
      congr 1
      omega
    · rintro ⟨hc, rfl⟩
      have hc₁ : 8 + (x.length : Int) ≤ vm.runLimit := by omega
      refine ⟨_, ⟨hc₁, rfl⟩, ?_⟩
      rw [ih (by simp only [hR hc₁]; omega) (by simp only [hR hc₁]; omega)]
      simp only [hR hc₁]
      refine ⟨by omega, ?_⟩
      congr 1
      omega

/-- `Verify`'s body succeeds when the state data and the arguments can be paid for, the program
runs to its end, and the top item is then true. -/
theorem verifyBody_eq_ok {fuel : Nat} {u : Unit} :
    (verifyBody cr ctx fuel).run vm = .ok u vm' ↔
      ∃ vm₁, (ctx.stateData.forM fun state => pushAltStack state false).run vm = .ok () vm₁ ∧
      ∃ vm₂, (ctx.arguments.forM fun arg => pushDataStack arg false).run vm₁ = .ok () vm₂ ∧
      (run cr ctx fuel).run vm₂ = .ok () vm' ∧ falseResult vm' = false := by
  unfold verifyBody
  simp only [EStateM.run_bind_eq_ok, EStateM.run_get_eq_ok, EStateM.run_ite_eq_ok, throwErr_ne_ok,
    EStateM.run_pure_eq_ok, and_false, false_or, exists_and_left, exists_eq_left', and_assoc,
    true_and, Bool.not_eq_true]
  constructor
  · rintro ⟨⟨⟩, vm₁, h₁, ⟨⟩, vm₂, h₂, ⟨⟩, _, h₃, hf, rfl⟩
    exact ⟨vm₁, h₁, vm₂, h₂, h₃, hf⟩
  · rintro ⟨vm₁, h₁, vm₂, h₂, h₃, hf⟩
    exact ⟨(), vm₁, h₁, (), vm₂, h₂, (), vm', h₃, hf, rfl⟩

theorem run_eq_ok {fuel : Nat} {u : Unit} :
    (run cr ctx fuel).run vm = .ok u vm' ↔ (loop cr ctx fuel).run { vm with pc := 0 } = .ok u vm' := by
  unfold run
  simp only [EStateM.run_bind_eq_ok, EStateM.run_modify_eq_ok]
  constructor
  · rintro ⟨_, _, h₁, h₂⟩
    exact h₁ ▸ h₂
  · intro h
    exact ⟨(), _, rfl, h⟩

end Spec

/-- Hash and signature functions that ignore their input, for runs on concrete spends. -/
def constCrypto : Crypto where
  sha256 := fun _ => List.replicate 32 0
  sha3 := fun _ => List.replicate 32 0
  ripemd160 := fun _ => List.replicate 20 0
  ed25519Verify := fun _ _ _ => true

/-- A version-1 context for a spend with the given code, state data and arguments. -/
def spendContext (code : Bytes) (stateData arguments : List Bytes) : Context where
  vmVersion := 1
  code := code
  stateData := stateData
  arguments := arguments
  entryID := []
  txVersion := some 1
  blockHeight := none
  assetID := none
  amount := none
  destPos := none
  spentOutputID := none
  txSigHash := some (List.replicate 32 0)
  checkOutput := none

/-- `Verify`, with fuel: `some (gasLeft, err)` as Go returns it, and `none` when the fuel ran out.
A panic is caught by the `recover` and reported as `ErrUnexpected` with `gasLeft` still zero. -/
def verify (fuel : Nat) (gasLimit : Int) : Option (Int × Option VMError) :=
  if ctx.vmVersion ≠ 1 then some (gasLimit, some .unsupportedVM)
  else
    match (verifyBody cr ctx fuel).run (initialVM ctx gasLimit) with
    | .ok _ vm => some (vm.runLimit, none)
    | .error (.err e) vm => some (vm.runLimit, some e)
    | .error .panic _ => some (0, some .unexpected)
    | .error .outOfFuel _ => none

/-- `Verify` reports success exactly for a successful run of its body. -/
theorem verify_eq_ok {fuel : Nat} {gasLimit g : Int} (hv : ctx.vmVersion = 1) :
    verify cr ctx fuel gasLimit = some (g, none) ↔
      ∃ vm, (verifyBody cr ctx fuel).run (initialVM ctx gasLimit) = .ok () vm ∧ vm.runLimit = g := by
  unfold verify
  rw [if_neg (by omega)]
  split
  · rename_i vm h
    simp [h]
  · simp_all
  · simp_all
  · simp_all

/-- The machine `Verify` runs its program from: the state data on the alternate stack and the
arguments on the data stack, both paid for. -/
def loadedVM (gasLimit : Int) : VM :=
  { initialVM ctx gasLimit with
    runLimit := gasLimit - stackCost ctx.stateData - stackCost ctx.arguments
    dataStack := ctx.arguments.reverse
    altStack := ctx.stateData.reverse
    altStackNil := ctx.stateData.isEmpty }

/-- `Verify` succeeds exactly when the state data and the arguments can be paid for and the
program, run from the loaded machine, ends with a true top item. -/
theorem verify_succeeds_iff {fuel : Nat} {gasLimit : Int} (hv : ctx.vmVersion = 1)
    (h₀ : 0 ≤ gasLimit) (h₁ : gasLimit ≤ maxInt64) :
    (∃ g, verify cr ctx fuel gasLimit = some (g, none)) ↔
      stackCost ctx.stateData + stackCost ctx.arguments ≤ gasLimit ∧
      ∃ vm, (loop cr ctx fuel).run (loadedVM ctx gasLimit) = .ok () vm ∧ falseResult vm = false := by
  simp only [verify_eq_ok cr ctx hv, verifyBody_eq_ok, run_eq_ok]
  have hS := stackCost_nonneg ctx.stateData
  have hA := stackCost_nonneg ctx.arguments
  constructor
  · rintro ⟨_, vm, ⟨vm₁, hs, vm₂, ha, hrun, hf⟩, rfl⟩
    rw [forM_pushAltStack_eq_ok _ h₀ h₁] at hs
    obtain ⟨c₁, rfl⟩ := hs
    dsimp only [initialVM] at c₁
    rw [forM_pushDataStack_eq_ok _ (by dsimp only [initialVM]; omega)
      (by dsimp only [initialVM]; omega)] at ha
    obtain ⟨c₂, rfl⟩ := ha
    simp only [initialVM, List.append_nil] at c₂ hrun
    exact ⟨by omega, vm, hrun, hf⟩
  · rintro ⟨hc, vm, hrun, hf⟩
    have halt := (@forM_pushAltStack_eq_ok (initialVM ctx gasLimit) _ ctx.stateData h₀ h₁ ()).mpr
      ⟨by dsimp only [initialVM]; omega, rfl⟩
    refine ⟨_, vm, ⟨_, halt, _, (forM_pushDataStack_eq_ok ctx.arguments ?_ ?_).mpr ⟨?_, rfl⟩, ?_, hf⟩,
      rfl⟩
    all_goals dsimp only [initialVM]
    · omega
    · omega
    · omega
    · simpa only [List.append_nil, loadedVM, initialVM, Bool.true_and] using hrun


/-- `Verify`'s body is its program's run from the loaded machine, followed by the verdict. -/
theorem verifyBody_run_loaded {fuel : Nat} {gasLimit : Int} (h₀ : 0 ≤ gasLimit)
    (h₁ : gasLimit ≤ maxInt64)
    (hc : stackCost ctx.stateData + stackCost ctx.arguments ≤ gasLimit) :
    (verifyBody cr ctx fuel).run (initialVM ctx gasLimit) = (do
      loop cr ctx fuel
      if falseResult (← get) then throwErr .falseVMResult : VmM Unit).run (loadedVM ctx gasLimit) := by
  have hS := stackCost_nonneg ctx.stateData
  have hA := stackCost_nonneg ctx.arguments
  have halt : (ctx.stateData.forM fun x => pushAltStack x false).run (initialVM ctx gasLimit) =
      .ok () { initialVM ctx gasLimit with
        runLimit := gasLimit - stackCost ctx.stateData
        altStack := ctx.stateData.reverse
        altStackNil := ctx.stateData.isEmpty } := by
    rw [forM_pushAltStack_eq_ok _ h₀ h₁]
    exact ⟨by dsimp only [initialVM]; omega, by simp [initialVM]⟩
  have hargs : (ctx.arguments.forM fun x => pushDataStack x false).run { initialVM ctx gasLimit with
        runLimit := gasLimit - stackCost ctx.stateData
        altStack := ctx.stateData.reverse
        altStackNil := ctx.stateData.isEmpty } =
      .ok () { loadedVM ctx gasLimit with pc := 0 } := by
    rw [forM_pushDataStack_eq_ok _ (by dsimp only; omega) (by dsimp only; omega)]
    exact ⟨by dsimp only; omega, by simp [initialVM, loadedVM]⟩
  unfold verifyBody run
  rw [EStateM.run_bind_of_ok halt, EStateM.run_bind_of_ok hargs, bind_assoc,
    EStateM.run_bind_of_ok (EStateM.run_modify _ _)]
  rfl

/-- A panic in the program's run is what `Verify`'s `recover` reports as `ErrUnexpected`. -/
theorem verify_of_loop_panic {fuel : Nat} {gasLimit : Int} {s : VM} (hv : ctx.vmVersion = 1)
    (h₀ : 0 ≤ gasLimit) (h₁ : gasLimit ≤ maxInt64)
    (hc : stackCost ctx.stateData + stackCost ctx.arguments ≤ gasLimit)
    (h : (loop cr ctx fuel).run (loadedVM ctx gasLimit) = .error .panic s) :
    verify cr ctx fuel gasLimit = some (0, some .unexpected) := by
  unfold verify
  rw [if_neg (by omega), verifyBody_run_loaded cr ctx h₀ h₁ hc, EStateM.run_bind_of_error h]

/-- A run that never stops is a `Verify` that never returns. -/
theorem verify_of_loop_outOfFuel {fuel : Nat} {gasLimit : Int} {s : VM} (hv : ctx.vmVersion = 1)
    (h₀ : 0 ≤ gasLimit) (h₁ : gasLimit ≤ maxInt64)
    (hc : stackCost ctx.stateData + stackCost ctx.arguments ≤ gasLimit)
    (h : (loop cr ctx fuel).run (loadedVM ctx gasLimit) = .error .outOfFuel s) :
    verify cr ctx fuel gasLimit = none := by
  unfold verify
  rw [if_neg (by omega), verifyBody_run_loaded cr ctx h₀ h₁ hc, EStateM.run_bind_of_error h]

/-- A run that ends with a true top item is a `Verify` that returns its run limit. -/
theorem verify_of_loop_ok {fuel : Nat} {gasLimit : Int} {vm : VM} (hv : ctx.vmVersion = 1)
    (h₀ : 0 ≤ gasLimit) (h₁ : gasLimit ≤ maxInt64)
    (hc : stackCost ctx.stateData + stackCost ctx.arguments ≤ gasLimit)
    (h : (loop cr ctx fuel).run (loadedVM ctx gasLimit) = .ok () vm) (hf : falseResult vm = false) :
    verify cr ctx fuel gasLimit = some (vm.runLimit, none) := by
  unfold verify
  rw [if_neg (by omega), verifyBody_run_loaded cr ctx h₀ h₁ hc, EStateM.run_bind_of_ok h,
    EStateM.run_bind_of_ok (EStateM.run_get _), hf]
  rfl

end KuskCore.Vm
