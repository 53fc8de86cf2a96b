import KuskCore.Vm.Step

/-!
# Running a program one instruction at a time

The loop at fuel `k + 1` on a decoded instruction is the instruction's opcode followed by the loop
at fuel `k` from the state the opcode leaves. For the opcodes the standard programs use, the lemmas
below state that state and the conditions under which the opcode and its deferred cost succeed, so
that a proof about a whole program walks through it with one rewrite per instruction.

They assume `GasInRange`: the run limit is nonnegative and, with the data stack's cost, fits an
`int64`. Then no charge or refund of these opcodes wraps, and the lemmas state the run limit as
plain arithmetic.
-/

namespace KuskCore.Vm

open GoInt KuskCore.Checked

variable (cr : Crypto) (ctx : Context) {vm vm' vm'' : VM} {k : Nat} {u : Unit}

/-- The child run that `step` hands to `CHECKPREDICATE` at fuel `k + 1`. -/
abbrev childRun (k : Nat) : VmM Unit := modify (fun vm => { vm with pc := 0 }) *> loop cr ctx k

theorem loop_succ_of_parse {inst : Instruction} (hpc : vm.pc < uint32 vm.program.length)
    (hp : parseOp vm.program vm.pc = .ok inst) (hx : isExpansion inst.op = false) :
    (loop cr ctx (k + 1)).run vm = .ok u vm'' ↔ ∃ vm',
      (opFn cr ctx (childRun cr ctx k) (ops inst.op)).run
        { vm with nextPC := uint32 (vm.pc + inst.len), deferredCost := 0, data := inst.data } =
        .ok () vm' ∧ vm'.deferredCost ≤ vm'.runLimit ∧
      (loop cr ctx k).run
        { vm' with runLimit := int64 (vm'.runLimit - vm'.deferredCost), pc := vm'.nextPC } =
        .ok u vm'' := by
  rw [loop_succ_eq_ok]
  simp only [step_eq_ok cr ctx hp hx, hpc, true_and, not_true_eq_false, false_and, or_false]
  constructor
  · rintro ⟨_, ⟨vm', h₁, h₂, rfl⟩, h₃⟩
    exact ⟨vm', h₁, h₂, h₃⟩
  · rintro ⟨vm', h₁, h₂, h₃⟩
    exact ⟨_, ⟨vm', h₁, h₂, rfl⟩, h₃⟩

/-- Inside the program, the loop at fuel `k + 1` is one step and then the loop at fuel `k`. -/
theorem loop_succ_run (hpc : vm.pc < uint32 vm.program.length) :
    (loop cr ctx (k + 1)).run vm = (step cr ctx (childRun cr ctx k) >>= fun _ => loop cr ctx k).run vm := by
  rw [loop, EStateM.run_bind_of_ok (EStateM.run_get _), EStateM.run_bind_of_ok (EStateM.run_get _),
    if_pos hpc]

/-- A step whose opcode stops with an error stops with it, in the state the opcode left. -/
theorem step_run_of_error {child : VmM Unit} {inst : Instruction} {e : Exn} {s : VM}
    (hp : parseOp vm.program vm.pc = .ok inst) (hx : isExpansion inst.op = false)
    (h : (opFn cr ctx child (ops inst.op)).run
      { vm with nextPC := uint32 (vm.pc + inst.len), deferredCost := 0, data := inst.data } =
        .error e s) :
    (step cr ctx child).run vm = .error e s := by
  rw [step_run_of_parse cr ctx hp hx, EStateM.run_bind_of_error h]

/-- Past the end of the program the loop stops with the state as it is. -/
theorem loop_succ_end (hpc : ¬ vm.pc < uint32 vm.program.length) :
    (loop cr ctx (k + 1)).run vm = .ok u vm'' ↔ vm = vm'' := by
  rw [loop_succ_eq_ok]
  simp [hpc]

theorem loop_succ_end_run (hpc : ¬ vm.pc < uint32 vm.program.length) :
    (loop cr ctx (k + 1)).run vm = .ok () vm := by
  rw [loop, EStateM.run_bind_of_ok (EStateM.run_get _), EStateM.run_bind_of_ok (EStateM.run_get _),
    if_neg hpc]
  rfl

/-- A step whose opcode succeeds with its deferred cost covered hands the loop the next state. -/
theorem loop_succ_of_op {inst : Instruction} {v : VM} (hpc : vm.pc < uint32 vm.program.length)
    (hp : parseOp vm.program vm.pc = .ok inst) (hx : isExpansion inst.op = false)
    (h : (opFn cr ctx (childRun cr ctx k) (ops inst.op)).run
      { vm with nextPC := uint32 (vm.pc + inst.len), deferredCost := 0, data := inst.data } =
        .ok () v)
    (hd : v.deferredCost ≤ v.runLimit) :
    (loop cr ctx (k + 1)).run vm =
      (loop cr ctx k).run { v with runLimit := int64 (v.runLimit - v.deferredCost), pc := v.nextPC } := by
  rw [loop_succ_run cr ctx hpc, EStateM.run_bind_of_ok ((step_eq_ok cr ctx (u := ()) hp hx).mpr ⟨v, h, hd, rfl⟩)]

/-- A step whose opcode succeeds but leaves a deferred cost above the run limit stops the loop
with the run limit spent. -/
theorem loop_succ_of_op_exceeds {inst : Instruction} {v : VM}
    (hpc : vm.pc < uint32 vm.program.length)
    (hp : parseOp vm.program vm.pc = .ok inst) (hx : isExpansion inst.op = false)
    (h : (opFn cr ctx (childRun cr ctx k) (ops inst.op)).run
      { vm with nextPC := uint32 (vm.pc + inst.len), deferredCost := 0, data := inst.data } =
        .ok () v)
    (hd : v.runLimit < v.deferredCost) :
    (loop cr ctx (k + 1)).run vm = .error (.err .runLimitExceeded) { v with runLimit := 0 } := by
  have hs : (step cr ctx (childRun cr ctx k)).run vm =
      .error (.err .runLimitExceeded) { v with runLimit := 0 } := by
    rw [step_run_of_parse cr ctx hp hx, EStateM.run_bind_of_ok h,
      EStateM.run_bind_of_ok (EStateM.run_get _),
      EStateM.run_bind_of_error (by rw [applyCost_run, if_pos hd])]
  rw [loop_succ_run cr ctx hpc, EStateM.run_bind_of_error hs]

/-! ## One lemma per opcode -/

/-- The run limit is nonnegative and, with what the data stack would refund, still an `int64`. -/
def GasInRange (vm : VM) : Prop := 0 ≤ vm.runLimit ∧ vm.runLimit + stackCost vm.dataStack ≤ maxInt64

/-- `Verify` hands its program a machine in range once the state data and arguments are paid. -/
theorem gasInRange_loadedVM {gasLimit : Int}
    (hc : stackCost ctx.stateData + stackCost ctx.arguments ≤ gasLimit) (h₁ : gasLimit ≤ maxInt64) :
    GasInRange (loadedVM ctx gasLimit) := by
  have := stackCost_nonneg ctx.stateData
  have := stackCost_nonneg ctx.arguments
  refine ⟨by dsimp only [loadedVM]; omega, ?_⟩
  dsimp only [loadedVM]
  rw [stackCost_reverse]
  omega

theorem loop_dup (hpc : vm.pc < uint32 vm.program.length)
    (hp : parseOp vm.program vm.pc = .ok ⟨Op.dup, 1, []⟩) (hg : GasInRange vm) :
    (loop cr ctx (k + 1)).run vm = .ok u vm'' ↔ ∃ x rest, vm.dataStack = x :: rest ∧
      1 ≤ vm.runLimit ∧ 8 + (x.length : Int) ≤ vm.runLimit - 1 ∧
      (loop cr ctx k).run { vm with
        pc := uint32 (vm.pc + 1), nextPC := uint32 (vm.pc + 1), deferredCost := 0, data := []
        runLimit := vm.runLimit - 1 - (8 + x.length)
        dataStack := x :: x :: rest } = .ok u vm'' := by
  obtain ⟨_, hcap⟩ := hg
  unfold maxInt64 at hcap
  have := stackCost_nonneg vm.dataStack
  rw [loop_succ_of_parse cr ctx hpc hp (by decide)]
  dsimp only
  rw [show opFn cr ctx (childRun cr ctx k) (ops Op.dup) = opDup from rfl]
  simp only [opDup_eq_ok]
  constructor
  · rintro ⟨_, ⟨x, rest, hs, h₁, h₂, rfl⟩, -, h₄⟩
    simp (disch := omega) only [int64_of_le] at h₂
    simp (disch := omega) only [int64_of_le, Int.sub_zero] at h₄
    exact ⟨x, rest, hs, h₁, h₂, h₄⟩
  · rintro ⟨x, rest, hs, h₁, h₂, h₄⟩
    refine ⟨_, ⟨x, rest, hs, h₁, ?_, rfl⟩, ?_, ?_⟩
    · simp (disch := omega) only [int64_of_le]
      omega
    · simp (disch := omega) only [int64_of_le]
      omega
    · simpa (disch := omega) only [int64_of_le, Int.sub_zero] using h₄

theorem loop_swap (hpc : vm.pc < uint32 vm.program.length)
    (hp : parseOp vm.program vm.pc = .ok ⟨Op.swap, 1, []⟩) (hg : GasInRange vm) :
    (loop cr ctx (k + 1)).run vm = .ok u vm'' ↔ ∃ a b rest, vm.dataStack = a :: b :: rest ∧
      1 ≤ vm.runLimit ∧
      (loop cr ctx k).run { vm with
        pc := uint32 (vm.pc + 1), nextPC := uint32 (vm.pc + 1), deferredCost := 0, data := []
        runLimit := vm.runLimit - 1
        dataStack := b :: a :: rest } = .ok u vm'' := by
  obtain ⟨_, hcap⟩ := hg
  unfold maxInt64 at hcap
  have := stackCost_nonneg vm.dataStack
  rw [loop_succ_of_parse cr ctx hpc hp (by decide)]
  dsimp only
  rw [show opFn cr ctx (childRun cr ctx k) (ops Op.swap) = opSwap from rfl]
  simp only [opSwap_eq_ok]
  constructor
  · rintro ⟨_, ⟨a, b, rest, hs, h₁, rfl⟩, -, h₄⟩
    simp (disch := omega) only [int64_of_le, Int.sub_zero] at h₄
    exact ⟨a, b, rest, hs, h₁, h₄⟩
  · rintro ⟨a, b, rest, hs, h₁, h₄⟩
    refine ⟨_, ⟨a, b, rest, hs, h₁, rfl⟩, ?_, ?_⟩
    · simp (disch := omega) only [int64_of_le]
      omega
    · simpa (disch := omega) only [int64_of_le, Int.sub_zero] using h₄

/-- A push instruction puts its data on the stack, paid at once. -/
theorem loop_push {op : UInt8} {n : Nat} {d : Bytes} (hpc : vm.pc < uint32 vm.program.length)
    (hp : parseOp vm.program vm.pc = .ok ⟨op, n, d⟩) (h₁ : 1 ≤ op.toNat) (h₂ : op.toNat ≤ 0x4e)
    (hg : GasInRange vm) :
    (loop cr ctx (k + 1)).run vm = .ok u vm'' ↔
      1 ≤ vm.runLimit ∧ 8 + (d.length : Int) ≤ vm.runLimit - 1 ∧
      (loop cr ctx k).run { vm with
        pc := uint32 (vm.pc + n), nextPC := uint32 (vm.pc + n), deferredCost := 0, data := d
        runLimit := vm.runLimit - 1 - (8 + d.length)
        dataStack := d :: vm.dataStack } = .ok u vm'' := by
  obtain ⟨_, hcap⟩ := hg
  unfold maxInt64 at hcap
  have := stackCost_nonneg vm.dataStack
  obtain ⟨hops, hx⟩ := ops_of_push h₁ h₂
  rw [loop_succ_of_parse cr ctx hpc hp hx]
  dsimp only
  rw [hops, show opFn cr ctx (childRun cr ctx k) .opPushdata = opPushdata from rfl]
  simp only [opPushdata_eq_ok]
  constructor
  · rintro ⟨_, ⟨h₁, h₂, rfl⟩, -, h₄⟩
    simp (disch := omega) only [int64_of_le] at h₂
    simp (disch := omega) only [int64_of_le, Int.sub_zero] at h₄
    exact ⟨h₁, h₂, h₄⟩
  · rintro ⟨h₁, h₂, h₄⟩
    refine ⟨_, ⟨h₁, ?_, rfl⟩, ?_, ?_⟩
    · simp (disch := omega) only [int64_of_le]
      omega
    · simp (disch := omega) only [int64_of_le]
      omega
    · simpa (disch := omega) only [int64_of_le, Int.sub_zero] using h₄

/-- `HASH160` refunds the popped item at once and then charges the hash and the pushed digest. -/
theorem loop_hash160 (hpc : vm.pc < uint32 vm.program.length)
    (hp : parseOp vm.program vm.pc = .ok ⟨Op.hash160, 1, []⟩) (hg : GasInRange vm) :
    (loop cr ctx (k + 1)).run vm = .ok u vm'' ↔ ∃ x rest, vm.dataStack = x :: rest ∧
      x.length + 64 ≤ vm.runLimit + (8 + x.length) ∧
      8 + ((cr.ripemd160 x).length : Int) ≤ vm.runLimit + (8 + x.length) - (x.length + 64) ∧
      (loop cr ctx k).run { vm with
        pc := uint32 (vm.pc + 1), nextPC := uint32 (vm.pc + 1), deferredCost := 0, data := []
        runLimit := vm.runLimit + (8 + x.length) - (x.length + 64) - (8 + (cr.ripemd160 x).length)
        dataStack := cr.ripemd160 x :: rest } = .ok u vm'' := by
  obtain ⟨_, hcap⟩ := hg
  unfold maxInt64 at hcap
  rw [loop_succ_of_parse cr ctx hpc hp (by decide)]
  dsimp only
  rw [show opFn cr ctx (childRun cr ctx k) (ops Op.hash160) = opHash160 cr from rfl]
  simp only [opHash160_eq_ok]
  constructor
  · rintro ⟨_, ⟨x, rest, hs, h₁, h₂, rfl⟩, -, h₄⟩
    rw [hs, stackCost_cons] at hcap
    have := stackCost_nonneg rest
    simp (disch := omega) only [int64_of_le] at h₁
    simp (disch := omega) only [int64_of_le] at h₂
    simp (disch := omega) only [int64_of_le, Int.sub_zero] at h₄
    exact ⟨x, rest, hs, h₁, h₂, h₄⟩
  · rintro ⟨x, rest, hs, h₁, h₂, h₄⟩
    rw [hs, stackCost_cons] at hcap
    have := stackCost_nonneg rest
    refine ⟨_, ⟨x, rest, hs, ?_, ?_, rfl⟩, ?_, ?_⟩
    · simp (disch := omega) only [int64_of_le]
      omega
    · simp (disch := omega) only [int64_of_le]
      omega
    · simp (disch := omega) only [int64_of_le]
      omega
    · simpa (disch := omega) only [int64_of_le, Int.sub_zero] using h₄

/-- `EQUALVERIFY` pops two equal items; their cost comes back as a deferred refund. -/
theorem loop_equalVerify (hpc : vm.pc < uint32 vm.program.length)
    (hp : parseOp vm.program vm.pc = .ok ⟨Op.equalVerify, 1, []⟩) (hg : GasInRange vm) :
    (loop cr ctx (k + 1)).run vm = .ok u vm'' ↔ ∃ a rest, vm.dataStack = a :: a :: rest ∧
      1 ≤ vm.runLimit ∧ (a.length : Int) ≤ vm.runLimit - 1 ∧
      (loop cr ctx k).run { vm with
        pc := uint32 (vm.pc + 1), nextPC := uint32 (vm.pc + 1), data := []
        deferredCost := -(8 + a.length) + -(8 + a.length)
        runLimit := vm.runLimit - 1 - a.length - (-(8 + a.length) + -(8 + a.length))
        dataStack := rest } = .ok u vm'' := by
  obtain ⟨_, hcap⟩ := hg
  unfold maxInt64 at hcap
  rw [loop_succ_of_parse cr ctx hpc hp (by decide)]
  dsimp only
  rw [show opFn cr ctx (childRun cr ctx k) (ops Op.equalVerify) = opEqualVerify from rfl]
  simp only [opEqualVerify_eq_ok, Int.zero_add]
  constructor
  · rintro ⟨_, ⟨a, rest, hs, h₁, h₂, rfl⟩, -, h₄⟩
    rw [hs, stackCost_cons, stackCost_cons] at hcap
    have := stackCost_nonneg rest
    simp (disch := omega) only [int64_of_le] at h₂
    simp (disch := omega) only [int64_of_le] at h₄
    exact ⟨a, rest, hs, h₁, h₂, h₄⟩
  · rintro ⟨a, rest, hs, h₁, h₂, h₄⟩
    rw [hs, stackCost_cons, stackCost_cons] at hcap
    have := stackCost_nonneg rest
    refine ⟨_, ⟨a, rest, hs, h₁, ?_, rfl⟩, ?_, ?_⟩
    · simp (disch := omega) only [int64_of_le]
      omega
    · simp (disch := omega) only [int64_of_le]
      omega
    · simpa (disch := omega) only [int64_of_le] using h₄

theorem loop_txSigHash (hpc : vm.pc < uint32 vm.program.length)
    (hp : parseOp vm.program vm.pc = .ok ⟨Op.txSigHash, 1, []⟩) (hg : GasInRange vm) :
    (loop cr ctx (k + 1)).run vm = .ok u vm'' ↔ ∃ m, ctx.txSigHash = some m ∧
      256 ≤ vm.runLimit ∧ 8 + (m.length : Int) ≤ vm.runLimit - 256 ∧
      (loop cr ctx k).run { vm with
        pc := uint32 (vm.pc + 1), nextPC := uint32 (vm.pc + 1), deferredCost := 0, data := []
        runLimit := vm.runLimit - 256 - (8 + m.length)
        dataStack := m :: vm.dataStack } = .ok u vm'' := by
  obtain ⟨_, hcap⟩ := hg
  unfold maxInt64 at hcap
  have := stackCost_nonneg vm.dataStack
  rw [loop_succ_of_parse cr ctx hpc hp (by decide)]
  dsimp only
  rw [show opFn cr ctx (childRun cr ctx k) (ops Op.txSigHash) = opTxSigHash ctx from rfl]
  simp only [opTxSigHash_eq_ok]
  constructor
  · rintro ⟨_, ⟨m, hm, h₁, h₂, rfl⟩, -, h₄⟩
    simp (disch := omega) only [int64_of_le] at h₂
    simp (disch := omega) only [int64_of_le, Int.sub_zero] at h₄
    exact ⟨m, hm, h₁, h₂, h₄⟩
  · rintro ⟨m, hm, h₁, h₂, h₄⟩
    refine ⟨_, ⟨m, hm, h₁, ?_, rfl⟩, ?_, ?_⟩
    · simp (disch := omega) only [int64_of_le]
      omega
    · simp (disch := omega) only [int64_of_le]
      omega
    · simpa (disch := omega) only [int64_of_le, Int.sub_zero] using h₄

/-- The deferred cost `CHECKSIG` leaves from a fresh step: the three popped items come back and
the pushed verdict is paid. -/
def checkSigRefund (cr : Crypto) (pk msg sig : Bytes) : Int :=
  -(8 + pk.length) + -(8 + msg.length) + -(8 + sig.length) +
    (8 + (boolBytes (decide (pk.length = 32) && cr.ed25519Verify pk msg sig)).length)

/-- `CHECKSIG` charges 1024 at once and settles the popped items and the verdict as a deferred
cost. -/
theorem loop_checkSig (hpc : vm.pc < uint32 vm.program.length)
    (hp : parseOp vm.program vm.pc = .ok ⟨Op.checkSig, 1, []⟩) (hg : GasInRange vm) :
    (loop cr ctx (k + 1)).run vm = .ok u vm'' ↔ ∃ pk msg sig rest,
      vm.dataStack = pk :: msg :: sig :: rest ∧ 1024 ≤ vm.runLimit ∧ msg.length = 32 ∧
      (loop cr ctx k).run { vm with
        pc := uint32 (vm.pc + 1), nextPC := uint32 (vm.pc + 1), data := []
        deferredCost := checkSigRefund cr pk msg sig
        runLimit := vm.runLimit - 1024 - checkSigRefund cr pk msg sig
        dataStack := boolBytes (decide (pk.length = 32) && cr.ed25519Verify pk msg sig) :: rest } =
        .ok u vm'' := by
  obtain ⟨_, hcap⟩ := hg
  unfold maxInt64 at hcap
  have hb : ∀ b, (boolBytes b).length ≤ 1 := fun b => by cases b <;> simp [boolBytes]
  rw [loop_succ_of_parse cr ctx hpc hp (by decide)]
  dsimp only
  rw [show opFn cr ctx (childRun cr ctx k) (ops Op.checkSig) = opCheckSig cr from rfl]
  simp only [opCheckSig_eq_ok, Int.zero_add]
  constructor
  · rintro ⟨_, ⟨pk, msg, sig, rest, hs, h₁, h₂, rfl⟩, -, h₄⟩
    rw [hs, stackCost_cons, stackCost_cons, stackCost_cons] at hcap
    have := stackCost_nonneg rest
    have := hb (decide (pk.length = 32) && cr.ed25519Verify pk msg sig)
    simp (disch := omega) only [int64_of_le] at h₄
    exact ⟨pk, msg, sig, rest, hs, h₁, h₂, h₄⟩
  · rintro ⟨pk, msg, sig, rest, hs, h₁, h₂, h₄⟩
    rw [hs, stackCost_cons, stackCost_cons, stackCost_cons] at hcap
    have := stackCost_nonneg rest
    have := hb (decide (pk.length = 32) && cr.ed25519Verify pk msg sig)
    refine ⟨_, ⟨pk, msg, sig, rest, hs, h₁, h₂, rfl⟩, ?_, ?_⟩
    · simp (disch := omega) only [int64_of_le]
      omega
    · unfold checkSigRefund at h₄
      simpa (disch := omega) only [int64_of_le] using h₄

/-! ## CHECKPREDICATE handing over the whole stack

With `n = 0` the child gets the whole data stack, and with `limit = 0` the whole run limit left
after the 256 up front. What the parent gets back (the child's leftover run limit and stacks,
less the pushed verdict) comes as a negative deferred cost that the step settles at its end.
-/

/-- How `CHECKPREDICATE` reads its child's run: the verdict and the child's last state, or
`none` when the child stopped with a panic or out of fuel, which the parent passes on. -/
def childOutcome : EStateM.Result Exn VM Unit → Option (Bool × VM)
  | .ok _ c => some (true, c)
  | .error (.err _) c => some (false, c)
  | .error _ _ => none

/-- The limit the child gets: `limit`, or all of `runLimit` for `limit = 0`. -/
def predicateLimit (limit runLimit : Int) : Int := if limit = 0 then runLimit else limit

/-- The deferred cost once the child's leftovers are refunded and the verdict is pushed. -/
def settleCost (d : Int) (childOk : Bool) (c : VM) : Int :=
  int64 (int64 (int64 (int64 (d + int64 (-c.runLimit)) + -stackCost c.dataStack) +
    -stackCost c.altStack) + (8 + (boolBytes (childOk && !falseResult c)).length))

/-- The child's leftovers refunded and the verdict pushed, both deferred. -/
def settleChild (vm : VM) (childOk : Bool) (c : VM) : VM :=
  { vm with
    deferredCost := settleCost vm.deferredCost childOk c
    dataStack := boolBytes (childOk && !falseResult c) :: vm.dataStack }

/-- The deferred cost before the child runs: 192 of the 256 back, the three popped items (the
limit `l`, the predicate `p` and an empty `n`) refunded. -/
def predicateDeferral (d : Int) (l p : Bytes) : Int :=
  int64 (int64 (int64 (int64 (d + (-256 + 64)) + -(8 + l.length)) + -(8 + p.length)) + -8)

/-- The state `CHECKPREDICATE` with `n = 0` leaves once its child ended in `c`, with the run
limit `r` that the child's limit left. -/
def predicateSettled (vm : VM) (l p : Bytes) (r : Int) (childOk : Bool) (c : VM) : VM :=
  settleChild { vm with
    runLimit := r, deferredCost := predicateDeferral vm.deferredCost l p, dataStack := [] } childOk c

theorem opCheckPredicate_run {child : VmM Unit} {l p : Bytes} {rest : List Bytes} {a : Nat} {L : Int}
    (hs : vm.dataStack = l :: p :: [] :: rest) (ha : asBigInt l = .ok a) (hL : bigIntInt64 a = .ok L)
    (hR : 256 ≤ vm.runLimit)
    (hlim : predicateLimit L (int64 (vm.runLimit - 256)) ≤ int64 (vm.runLimit - 256)) :
    (opCheckPredicate child).run vm =
      match child.run (childVM p (predicateLimit L (int64 (vm.runLimit - 256))) vm.depth rest) with
      | .ok _ c => .ok () (predicateSettled vm l p
          (int64 (int64 (vm.runLimit - 256) - predicateLimit L (int64 (vm.runLimit - 256)))) true c)
      | .error (.err _) c => .ok () (predicateSettled vm l p
          (int64 (int64 (vm.runLimit - 256) - predicateLimit L (int64 (vm.runLimit - 256)))) false c)
      | .error e _ => .error e { vm with
          runLimit := int64 (int64 (vm.runLimit - 256) - predicateLimit L (int64 (vm.runLimit - 256)))
          deferredCost := predicateDeferral vm.deferredCost l p
          dataStack := [] } := by
  unfold predicateLimit at hlim ⊢
  unfold opCheckPredicate
  simp only [EStateM.run_bind, applyCost_run, deferCost_run, popBigInt, pop, liftErr, EStateM.run_get, hs,
    EStateM.run_set, EStateM.run_pure, ha, hL, asBigInt_nil, bigIntInt64_zero, ↓reduceIte,
    gt_iff_lt, show ¬ (vm.runLimit < 256) from by omega, List.length_nil, Int.lt_irrefl,
    Int.toNat_natCast, List.drop_length, List.take_length, Int.not_lt.mpr hlim]
  unfold EStateM.run
  -- the three ways the child can end; each side is then the same term
  rcases child (childVM p (if L = 0 then int64 (vm.runLimit - 256) else L) vm.depth rest) with
    ⟨_, c⟩ | ⟨_ | _ | _, c⟩ <;> rfl

theorem opCheckPredicate_eq_ok {child : VmM Unit} {l p : Bytes} {rest : List Bytes} {a : Nat}
    {L : Int} (hs : vm.dataStack = l :: p :: [] :: rest) (ha : asBigInt l = .ok a)
    (hL : bigIntInt64 a = .ok L) :
    (opCheckPredicate child).run vm = .ok u vm' ↔ 256 ≤ vm.runLimit ∧
      predicateLimit L (int64 (vm.runLimit - 256)) ≤ int64 (vm.runLimit - 256) ∧ ∃ b c,
      childOutcome (child.run (childVM p (predicateLimit L (int64 (vm.runLimit - 256))) vm.depth
        rest)) = some (b, c) ∧
      vm' = predicateSettled vm l p
        (int64 (int64 (vm.runLimit - 256) - predicateLimit L (int64 (vm.runLimit - 256)))) b c := by
  by_cases hR : 256 ≤ vm.runLimit
  · by_cases hlim : predicateLimit L (int64 (vm.runLimit - 256)) ≤ int64 (vm.runLimit - 256)
    · rw [opCheckPredicate_run hs ha hL hR hlim]
      rcases child.run (childVM p (predicateLimit L (int64 (vm.runLimit - 256))) vm.depth rest) with
        ⟨_, c⟩ | ⟨_ | _ | _, c⟩ <;> simp [childOutcome, hR, hlim, eq_comm]
    · -- the limit is more than the run limit left: `applyCost limit` fails
      unfold predicateLimit at hlim
      have hlt : int64 (vm.runLimit - 256) < if L = 0 then int64 (vm.runLimit - 256) else L := by
        omega
      unfold opCheckPredicate
      simp [EStateM.run_bind, applyCost_run, deferCost_run, popBigInt, pop, liftErr, hs, ha, hL,
        show ¬ (256 : Int) > vm.runLimit from by omega, hR, predicateLimit, hlim, hlt]
  · unfold opCheckPredicate
    simp [EStateM.run_bind, applyCost_run, show (256 : Int) > vm.runLimit from by omega, hR]

theorem childRun_childVM {p : Bytes} {l : Int} {d : Nat} {st : List Bytes} :
    (childRun cr ctx k).run (childVM p l d st) = (loop cr ctx k).run (childVM p l d st) := rfl

section Equations

variable {cr ctx}

/-- A push instruction, `DATA_n` or a small number, puts its data on the stack, paid at once. -/
theorem loop_push_run {op : UInt8} {n : Nat} {d : Bytes} (hpc : vm.pc < uint32 vm.program.length)
    (hp : parseOp vm.program vm.pc = .ok ⟨op, n, d⟩) (hop : ops op = .opPushdata)
    (hx : isExpansion op = false) (hg : GasInRange vm) (hR : 9 + (d.length : Int) ≤ vm.runLimit) :
    (loop cr ctx (k + 1)).run vm = (loop cr ctx k).run { vm with
      pc := uint32 (vm.pc + n), nextPC := uint32 (vm.pc + n), deferredCost := 0, data := d
      runLimit := vm.runLimit - 1 - (8 + d.length)
      dataStack := d :: vm.dataStack } := by
  obtain ⟨_, hcap⟩ := hg
  unfold maxInt64 at hcap
  have := stackCost_nonneg vm.dataStack
  have hop' : (opFn cr ctx (childRun cr ctx k) (ops op)).run
      { vm with nextPC := uint32 (vm.pc + n), deferredCost := 0, data := d } = .ok ()
      { vm with
        nextPC := uint32 (vm.pc + n), deferredCost := 0, data := d
        runLimit := vm.runLimit - 1 - (8 + d.length), dataStack := d :: vm.dataStack } := by
    rw [hop, show opFn cr ctx (childRun cr ctx k) .opPushdata = opPushdata from rfl,
      opPushdata_eq_ok]
    simp (disch := omega) only [int64_of_le]
    exact ⟨by omega, by omega, trivial⟩
  rw [loop_succ_of_op cr ctx hpc hp hx hop' (by dsimp only; omega)]
  simp (disch := omega) only [int64_of_le, Int.sub_zero]

/-- `0` pushes the empty item, paid at once. -/
theorem loop_false_run (hpc : vm.pc < uint32 vm.program.length)
    (hp : parseOp vm.program vm.pc = .ok ⟨Op.op0, 1, []⟩) (hg : GasInRange vm)
    (hR : 9 ≤ vm.runLimit) :
    (loop cr ctx (k + 1)).run vm = (loop cr ctx k).run { vm with
      pc := uint32 (vm.pc + 1), nextPC := uint32 (vm.pc + 1), deferredCost := 0, data := []
      runLimit := vm.runLimit - 1 - 8
      dataStack := [] :: vm.dataStack } := by
  obtain ⟨_, hcap⟩ := hg
  unfold maxInt64 at hcap
  have := stackCost_nonneg vm.dataStack
  have hop : (opFn cr ctx (childRun cr ctx k) (ops Op.op0)).run
      { vm with nextPC := uint32 (vm.pc + 1), deferredCost := 0, data := [] } = .ok ()
      { vm with
        nextPC := uint32 (vm.pc + 1), deferredCost := 0, data := []
        runLimit := vm.runLimit - 1 - 8, dataStack := [] :: vm.dataStack } := by
    rw [show opFn cr ctx (childRun cr ctx k) (ops Op.op0) = opFalse from rfl, opFalse_eq_ok]
    simp (disch := omega) only [int64_of_le]
    exact ⟨by omega, by omega, trivial⟩
  rw [loop_succ_of_op cr ctx hpc hp (by decide) hop (by dsimp only; omega)]
  simp (disch := omega) only [int64_of_le, Int.sub_zero]

/-- `NOT` refunds the popped number and charges the verdict, both deferred. -/
theorem loop_not_run {x : Bytes} {rest : List Bytes} {n : Nat}
    (hpc : vm.pc < uint32 vm.program.length)
    (hp : parseOp vm.program vm.pc = .ok ⟨Op.not, 1, []⟩) (hg : GasInRange vm)
    (hs : vm.dataStack = x :: rest) (hn : asBigInt x = .ok n) (hR : 3 ≤ vm.runLimit) :
    (loop cr ctx (k + 1)).run vm = (loop cr ctx k).run { vm with
      pc := uint32 (vm.pc + 1), nextPC := uint32 (vm.pc + 1), data := []
      deferredCost := -(8 + x.length) + (8 + (boolBytes (n == 0)).length)
      runLimit := vm.runLimit - 2 - (-(8 + x.length) + (8 + (boolBytes (n == 0)).length))
      dataStack := boolBytes (n == 0) :: rest } := by
  obtain ⟨_, hcap⟩ := hg
  unfold maxInt64 at hcap
  have hx : 8 + (x.length : Int) ≤ stackCost vm.dataStack := by
    rw [hs, stackCost_cons]
    have := stackCost_nonneg rest
    omega
  have hb : (boolBytes (n == 0)).length ≤ 1 := by
    cases n == 0 <;> simp [boolBytes]
  have hop : (opFn cr ctx (childRun cr ctx k) (ops Op.not)).run
      { vm with nextPC := uint32 (vm.pc + 1), deferredCost := 0, data := [] } = .ok ()
      { vm with
        nextPC := uint32 (vm.pc + 1), data := [], runLimit := vm.runLimit - 2
        deferredCost := -(8 + x.length) + (8 + (boolBytes (n == 0)).length)
        dataStack := boolBytes (n == 0) :: rest } := by
    rw [show opFn cr ctx (childRun cr ctx k) (ops Op.not) = opNot from rfl, opNot_eq_ok]
    refine ⟨x, rest, n, hs, hn, by dsimp only; omega, ?_⟩
    simp (disch := omega) only [int64_of_le, Int.zero_add]
  rw [loop_succ_of_op cr ctx hpc hp (by decide) hop (by dsimp only; omega)]
  simp (disch := omega) only [int64_of_le]

/-- `DROP` refunds the dropped item at once. -/
theorem loop_drop_run {x : Bytes} {rest : List Bytes} (hpc : vm.pc < uint32 vm.program.length)
    (hp : parseOp vm.program vm.pc = .ok ⟨Op.drop, 1, []⟩) (hg : GasInRange vm)
    (hs : vm.dataStack = x :: rest) (hR : 1 ≤ vm.runLimit) :
    (loop cr ctx (k + 1)).run vm = (loop cr ctx k).run { vm with
      pc := uint32 (vm.pc + 1), nextPC := uint32 (vm.pc + 1), deferredCost := 0, data := []
      runLimit := vm.runLimit - 1 + (8 + x.length)
      dataStack := rest } := by
  obtain ⟨_, hcap⟩ := hg
  unfold maxInt64 at hcap
  have hx : 8 + (x.length : Int) ≤ stackCost vm.dataStack := by
    rw [hs, stackCost_cons]
    have := stackCost_nonneg rest
    omega
  have hop : (opFn cr ctx (childRun cr ctx k) (ops Op.drop)).run
      { vm with nextPC := uint32 (vm.pc + 1), deferredCost := 0, data := [] } = .ok ()
      { vm with
        nextPC := uint32 (vm.pc + 1), deferredCost := 0, data := []
        runLimit := vm.runLimit - 1 + (8 + x.length), dataStack := rest } := by
    rw [show opFn cr ctx (childRun cr ctx k) (ops Op.drop) = opDrop from rfl, opDrop_eq_ok]
    refine ⟨x, rest, hs, by dsimp only; omega, ?_⟩
    simp (disch := omega) only [int64_of_le]
  rw [loop_succ_of_op cr ctx hpc hp (by decide) hop (by dsimp only; omega)]
  simp (disch := omega) only [int64_of_le, Int.sub_zero]

/-- `JUMP` moves `pc` to the address in its data. -/
theorem loop_jump_run {d : Bytes} (hpc : vm.pc < uint32 vm.program.length)
    (hp : parseOp vm.program vm.pc = .ok ⟨Op.jump, 5, d⟩) (hg : GasInRange vm)
    (hd : 4 ≤ d.length) (hR : 1 ≤ vm.runLimit) :
    (loop cr ctx (k + 1)).run vm = (loop cr ctx k).run { vm with
      pc := leUint32 d, nextPC := leUint32 d, deferredCost := 0, data := d
      runLimit := vm.runLimit - 1 } := by
  obtain ⟨_, hcap⟩ := hg
  unfold maxInt64 at hcap
  have := stackCost_nonneg vm.dataStack
  have hop : (opFn cr ctx (childRun cr ctx k) (ops Op.jump)).run
      { vm with nextPC := uint32 (vm.pc + 5), deferredCost := 0, data := d } = .ok ()
      { vm with
        nextPC := leUint32 d, deferredCost := 0, data := d, runLimit := vm.runLimit - 1 } := by
    rw [show opFn cr ctx (childRun cr ctx k) (ops Op.jump) = opJump from rfl, opJump_eq_ok]
    refine ⟨by dsimp only; omega, hd, ?_⟩
    simp (disch := omega) only [int64_of_le]
  rw [loop_succ_of_op cr ctx hpc hp rfl hop (by dsimp only; omega)]
  simp (disch := omega) only [int64_of_le, Int.sub_zero]

/-- `CHECKPREDICATE` with `n = 0`, whatever its child did short of a panic or running out of fuel:
the step settles the child's leftovers against the run limit its limit left. -/
theorem loop_checkPredicate_run {l p : Bytes} {rest : List Bytes} {a : Nat} {L : Int} {b : Bool}
    {c : VM} (hpc : vm.pc < uint32 vm.program.length)
    (hp : parseOp vm.program vm.pc = .ok ⟨Op.checkPredicate, 1, []⟩)
    (hs : vm.dataStack = l :: p :: [] :: rest) (ha : asBigInt l = .ok a) (hL : bigIntInt64 a = .ok L)
    (hR : 256 ≤ vm.runLimit)
    (hlim : predicateLimit L (int64 (vm.runLimit - 256)) ≤ int64 (vm.runLimit - 256))
    (hc : childOutcome ((loop cr ctx k).run
      (childVM p (predicateLimit L (int64 (vm.runLimit - 256))) vm.depth rest)) = some (b, c))
    (hd : settleCost (predicateDeferral 0 l p) b c ≤
      int64 (int64 (vm.runLimit - 256) - predicateLimit L (int64 (vm.runLimit - 256)))) :
    (loop cr ctx (k + 1)).run vm = (loop cr ctx k).run { vm with
      pc := uint32 (vm.pc + 1), nextPC := uint32 (vm.pc + 1), data := []
      deferredCost := settleCost (predicateDeferral 0 l p) b c
      runLimit := int64 (int64 (int64 (vm.runLimit - 256) -
        predicateLimit L (int64 (vm.runLimit - 256))) - settleCost (predicateDeferral 0 l p) b c)
      dataStack := [boolBytes (b && !falseResult c)] } := by
  have hs' : ({ vm with nextPC := uint32 (vm.pc + 1), deferredCost := 0, data := [] } : VM).dataStack =
      l :: p :: [] :: rest := hs
  have hop := (opCheckPredicate_eq_ok (u := ()) hs' ha hL).mpr
    ⟨hR, hlim, b, c, by rwa [childRun_childVM], rfl⟩
  change (opFn cr ctx (childRun cr ctx k) (ops Op.checkPredicate)).run _ = _ at hop
  rw [loop_succ_of_op cr ctx hpc hp (by decide) hop hd]
  rfl

end Equations

end KuskCore.Vm
