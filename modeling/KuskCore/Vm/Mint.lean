import KuskCore.Vm.Exec
import KuskCore.Vm.Fuel

/-!
# Gas minted by a predicate that fails

`CHECKPREDICATE` refunds what its child holds when the child stops, failed or not: the child's run
limit and both its stacks. A child that fails on its last step's deferred cost keeps the item it
pushed with that cost: `step` settles the deferred cost only after the opcode has pushed, and a
failed `applyCost` takes nothing back. `PROGRAM` pushes the running program with a deferred cost,
so run as a predicate with limit 1 it spends its one unit, fails on the deferred
`8 + len(program)`, and the parent is refunded an item no one paid for.

* `predicatePrefix` is `0 DATA_1 PROGRAM 1 CHECKPREDICATE`: it runs such a child on the whole data
  stack; `loop_predicatePrefix` gives the state it leaves, `len(program) - 68` units richer.
* `mintProgram` follows it with `NOT` and a jump past the end, and is 111 bytes long:
  `verify_mintProgram` returns 39 units more than the gas limit, less the state data's cost.
* `cycleProgram` follows it with `DROP` and a jump back to the start, and is 62 bytes long: a pass
  costs nothing and ends where it started, and `verify_cycleProgram` never returns, at any fuel.
-/

namespace KuskCore.Vm

open GoInt KuskCore.Checked

/-- `0 DATA_1 PROGRAM 1 CHECKPREDICATE`: run `PROGRAM` as a predicate with limit 1 on the whole
data stack. -/
def predicatePrefix : Bytes := [Op.op0, Op.data1, Op.program, Op.op1, Op.checkPredicate]

/-- The prefix, `NOT` of the child's false verdict, and a jump to `0xffffffff`, past the end. -/
def mintProgram : Bytes :=
  predicatePrefix ++ [Op.not, Op.jump, 0xff, 0xff, 0xff, 0xff] ++ List.replicate 100 0

/-- The prefix, `DROP` of the child's verdict, and a jump back to the start. -/
def cycleProgram : Bytes :=
  predicatePrefix ++ [Op.drop, Op.jump, 0, 0, 0, 0] ++ List.replicate 51 0

section Decode

variable {tail : Bytes}

/-- The four instructions of the prefix, in front of any tail. -/
theorem parseOp_predicatePrefix (hl : (predicatePrefix ++ tail).length ≤ maxInt32) :
    parseOp (predicatePrefix ++ tail) 0 = .ok ⟨Op.op0, 1, []⟩ ∧
    parseOp (predicatePrefix ++ tail) 1 = .ok ⟨Op.data1, 2, [Op.program]⟩ ∧
    parseOp (predicatePrefix ++ tail) 3 = .ok ⟨Op.op1, 1, [1]⟩ ∧
    parseOp (predicatePrefix ++ tail) 4 = .ok ⟨Op.checkPredicate, 1, []⟩ := by
  have hlen : (predicatePrefix ++ tail).length = 5 + tail.length := by
    simp only [predicatePrefix, List.length_append, List.length_cons, List.length_nil]
  refine ⟨parseOp_bare hl (by omega) rfl (by decide), ?_,
    parseOp_num hl (by omega) rfl (by decide) (by decide),
    parseOp_bare hl (by omega) rfl (by decide)⟩
  rw [parseOp_data hl (show _ = Op.data1 from rfl) (by decide) (by decide) (by rw [hlen, show Op.data1.toNat = 1 from rfl]; omega)]
  rfl

theorem parseOp_mintProgram :
    parseOp mintProgram 5 = .ok ⟨Op.not, 1, []⟩ ∧
    parseOp mintProgram 6 = .ok ⟨Op.jump, 5, [0xff, 0xff, 0xff, 0xff]⟩ :=
  ⟨rfl, rfl⟩

theorem parseOp_cycleProgram :
    parseOp cycleProgram 5 = .ok ⟨Op.drop, 1, []⟩ ∧
    parseOp cycleProgram 6 = .ok ⟨Op.jump, 5, [0, 0, 0, 0]⟩ :=
  ⟨rfl, rfl⟩

end Decode

variable {cr : Crypto} {ctx : Context} {vm : VM} {k : Nat}

/-- `PROGRAM` as a predicate with limit 1: it spends the unit, and its deferred push of the program
is more than nothing, so the child stops holding the program. -/
theorem loop_programPredicate (hcode : ctx.code.length ≤ maxInt32) (d : Nat) (st : List Bytes) :
    (loop cr ctx (k + 1)).run (childVM [Op.program] 1 d st) =
      .error (.err .runLimitExceeded) { childVM [Op.program] 1 d st with
        nextPC := 1, runLimit := 0, deferredCost := 8 + ctx.code.length
        dataStack := ctx.code :: st } := by
  unfold maxInt32 at hcode
  have hop : (opFn cr ctx (childRun cr ctx k) (ops Op.program)).run
      { childVM [Op.program] 1 d st with nextPC := uint32 (0 + 1), deferredCost := 0, data := [] } =
      .ok () { childVM [Op.program] 1 d st with
        nextPC := 1, runLimit := 0, deferredCost := 8 + ctx.code.length
        dataStack := ctx.code :: st } := by
    rw [show opFn cr ctx (childRun cr ctx k) (ops Op.program) = opProgram ctx from rfl,
      opProgram_eq_ok]
    refine ⟨Int.le_refl 1, ?_⟩
    simp (disch := omega) only [childVM, int64_of_le, Int.zero_add]
    rfl
  rw [loop_succ_of_op_exceeds cr ctx (show 0 < uint32 1 by decide)
    (show parseOp [Op.program] 0 = .ok ⟨Op.program, 1, []⟩ from rfl) rfl hop (by dsimp only; omega)]

/-- The prefix hands the whole data stack to the `PROGRAM` child and gets back, on top of its
68 units, the stack and the program the child never paid for; the child's false verdict is left
on the stack. -/
theorem loop_predicatePrefix {tail : Bytes} (hprog : vm.program = predicatePrefix ++ tail)
    (hl : (predicatePrefix ++ tail).length ≤ maxInt32) (hcode : ctx.code.length ≤ maxInt32)
    (hpc : vm.pc = 0) (hg : GasInRange vm) (hR : 286 ≤ vm.runLimit)
    (hcap : vm.runLimit + stackCost vm.dataStack + ctx.code.length ≤ maxInt64) :
    (loop cr ctx (k + 5)).run vm = (loop cr ctx (k + 1)).run { vm with
      pc := 5, nextPC := 5, data := []
      deferredCost := -218 - (ctx.code.length + stackCost vm.dataStack)
      runLimit := vm.runLimit - 68 + ctx.code.length + stackCost vm.dataStack
      dataStack := [[]] } := by
  obtain ⟨p₀, p₁, p₃, p₄⟩ := parseOp_predicatePrefix hl
  have hlen : (predicatePrefix ++ tail).length = 5 + tail.length := by
    simp only [predicatePrefix, List.length_append, List.length_cons, List.length_nil]
  have hS := stackCost_nonneg vm.dataStack
  obtain ⟨hR₀, hcap₀⟩ := hg
  unfold maxInt32 at hl hcode
  unfold maxInt64 at hcap hcap₀
  have hin : ∀ i, i < 5 → i < uint32 vm.program.length := by
    intro i hi
    rw [hprog, hlen, uint32_of_lt (by omega)]
    omega
  -- 0 at 0
  rw [loop_false_run (by rw [hpc]; exact hin 0 (by omega)) (by rw [hprog, hpc]; exact p₀) ⟨hR₀, hcap₀⟩
    (by omega)]
  simp (disch := decide) only [hpc, Nat.zero_add, uint32_of_lt]
  -- DATA_1 PROGRAM at 1
  rw [loop_push_run (hin 1 (by omega)) (by simp only [hprog]; exact p₁) rfl rfl
    ⟨by simp only; omega, by simp only [stackCost_cons, List.length_nil, maxInt64]; omega⟩
    (by simp only [List.length_cons, List.length_nil]; omega)]
  simp (disch := decide) only [Nat.reduceAdd, uint32_of_lt]
  -- 1 at 3
  rw [loop_push_run (hin 3 (by omega)) (by simp only [hprog]; exact p₃) rfl rfl
    ⟨by simp only [List.length_cons, List.length_nil]; omega,
      by simp only [stackCost_cons, List.length_cons, List.length_nil, maxInt64]; omega⟩
    (by simp only [List.length_cons, List.length_nil]; omega)]
  simp (disch := decide) only [Nat.reduceAdd, uint32_of_lt]
  -- CHECKPREDICATE at 4, with the child stopping on its first step
  simp only [List.length_singleton, Int.natCast_one]
  rw [show vm.runLimit - 1 - 8 - 1 - (8 + 1) - 1 - (8 + 1) = vm.runLimit - 29 by omega]
  have hX : int64 (vm.runLimit - 29 - 256) = vm.runLimit - 285 := by
    rw [int64_of_le (by omega) (by omega)]
    omega
  have hlim : predicateLimit ((1 : Nat) : Int) (vm.runLimit - 285) = 1 := if_neg (by decide)
  have hset : settleCost (predicateDeferral 0 [1] [Op.program]) false { childVM [Op.program] 1 vm.depth
      vm.dataStack with
        nextPC := 1, runLimit := 0, deferredCost := 8 + ctx.code.length
        dataStack := ctx.code :: vm.dataStack } = -218 - (ctx.code.length + stackCost vm.dataStack) := by
    simp (disch := omega) only [settleCost, predicateDeferral, childVM, stackCost_cons, stackCost_nil,
      int64_of_le, List.length_cons, List.length_nil, Bool.false_and, boolBytes, Bool.false_eq_true,
      ↓reduceIte]
    omega
  rw [loop_checkPredicate_run (hin 4 (by omega)) (by simp only [hprog]; exact p₄) rfl
    (show asBigInt [1] = .ok 1 from rfl) (bigIntInt64_of_lt (by decide))
    (by simp only; omega) (by rw [hX, hlim]; omega)
    (by rw [hX, hlim, loop_programPredicate hcode]; rfl) (by rw [hX, hlim, hset, int64_of_le (by omega) (by omega)]; omega)]
  dsimp only
  rw [hX, hlim, hset]
  simp (disch := omega) only [int64_of_le, Bool.false_and, boolBytes, Bool.false_eq_true, ↓reduceIte]
  simp (disch := decide) only [Nat.reduceAdd, uint32_of_lt]
  rw [show vm.runLimit - 285 - 1 - (-218 - (ctx.code.length + stackCost vm.dataStack)) =
    vm.runLimit - 68 + ctx.code.length + stackCost vm.dataStack by omega]

/-! ## Minting -/

theorem mintProgram_eq :
    mintProgram = predicatePrefix ++ ([Op.not, Op.jump, 0xff, 0xff, 0xff, 0xff] ++ List.replicate 100 0) :=
  List.append_assoc _ _ _

/-- From its start, `mintProgram` stops past its end with the true verdict of `NOT`, 39 units
richer, and refunded the stack the child took. -/
theorem loop_mintProgram (hcode : ctx.code = mintProgram) (hprog : vm.program = mintProgram)
    (hpc : vm.pc = 0) (hg : GasInRange vm) (hR : 286 ≤ vm.runLimit)
    (hcap : vm.runLimit + stackCost vm.dataStack + 111 ≤ maxInt64) :
    (loop cr ctx (k + 8)).run vm = .ok () { vm with
      pc := 0xffffffff, nextPC := 0xffffffff, data := [0xff, 0xff, 0xff, 0xff], deferredCost := 0
      runLimit := vm.runLimit + 39 + stackCost vm.dataStack
      dataStack := [[1]] } := by
  have hlen : mintProgram.length = 111 := rfl
  obtain ⟨p₅, p₆⟩ := parseOp_mintProgram
  have hS := stackCost_nonneg vm.dataStack
  unfold maxInt64 at hcap
  rw [mintProgram_eq] at hprog
  rw [show k + 8 = k + 3 + 5 from rfl, loop_predicatePrefix hprog (by rw [← mintProgram_eq]; decide)
    (by rw [hcode, hlen]; decide) hpc hg hR (by rw [hcode, hlen]; exact hcap)]
  rw [← mintProgram_eq] at hprog
  simp only [hcode, hlen]
  -- NOT at 5: the child's false verdict becomes true
  rw [loop_not_run (by simp only [hprog, hlen]; decide) (by simp only [hprog]; exact p₅)
    ⟨by simp only; omega, by simp only [stackCost_cons, stackCost_nil, List.length_nil, maxInt64]; omega⟩
    rfl asBigInt_nil (by simp only; omega)]
  simp (disch := decide) only [Nat.reduceAdd, uint32_of_lt, beq_self_eq_true, boolBytes, ↓reduceIte,
    List.length_cons, List.length_nil]
  -- JUMP at 6, past the end
  rw [loop_jump_run (by simp only [hprog, hlen]; decide) (by simp only [hprog]; exact p₆)
    ⟨by simp only; omega,
      by simp only [stackCost_cons, stackCost_nil, List.length_cons, List.length_nil, maxInt64]; omega⟩
    (by decide) (by simp only; omega)]
  rw [loop_succ_end_run cr ctx (by simp only [hprog, hlen]; decide)]
  have hj : leUint32 [0xff, 0xff, 0xff, 0xff] = 0xffffffff := rfl
  simp only [hj, EStateM.Result.ok.injEq, VM.mk.injEq, true_and, and_true]
  omega

/-- Every spend of `mintProgram` that can pay for its state data, its arguments and the prefix
returns 39 units more than its gas limit, less what the state data cost: the arguments are
refunded in full, and the program, pushed by a child that failed to pay for it, is refunded on
top. -/
theorem verify_mintProgram (cr : Crypto) (ctx : Context) {gasLimit : Int} (hv : ctx.vmVersion = 1)
    (hcode : ctx.code = mintProgram)
    (hc : 286 + stackCost ctx.stateData + stackCost ctx.arguments ≤ gasLimit)
    (h₁ : gasLimit + 111 ≤ maxInt64) :
    verify cr ctx (k + 8) gasLimit = some (gasLimit + 39 - stackCost ctx.stateData, none) := by
  have hS := stackCost_nonneg ctx.stateData
  have hA := stackCost_nonneg ctx.arguments
  unfold maxInt64 at h₁
  have hrun := @loop_mintProgram cr ctx (loadedVM ctx gasLimit) k hcode hcode rfl
    (gasInRange_loadedVM ctx (by omega) (by unfold maxInt64; omega))
    (by dsimp only [loadedVM]; omega)
    (by simp only [loadedVM, initialVM, stackCost_reverse]; unfold maxInt64; omega)
  rw [verify_of_loop_ok cr ctx hv (by omega) (by unfold maxInt64; omega) (by omega) hrun rfl]
  simp only [loadedVM, stackCost_reverse]
  congr 2
  omega

/-- The failing spend from the start of this module: a gas limit of 300 comes back as 339. -/
theorem verify_mintProgram_spend :
    verify constCrypto (spendContext mintProgram [] []) 8 300 = some (339, none) :=
  verify_mintProgram constCrypto _ rfl rfl (by decide) (by decide)

/-! ## A cycle that never returns -/

theorem cycleProgram_eq :
    cycleProgram = predicatePrefix ++ ([Op.drop, Op.jump, 0, 0, 0, 0] ++ List.replicate 51 0) :=
  List.append_assoc _ _ _

/-- The start of a pass of `cycleProgram`: gas for the prefix, and room above the run limit and the
stack for the program's refund. -/
def CycleStart (vm : VM) : Prop :=
  vm.program = cycleProgram ∧ vm.pc = 0 ∧ 286 ≤ vm.runLimit ∧
    vm.runLimit + stackCost vm.dataStack + 62 ≤ maxInt64

/-- The state a pass ends in: back at the start, with the stack the child took turned into gas. -/
def cyclePassed (vm : VM) : VM :=
  { vm with
    pc := 0, nextPC := 0, data := [0, 0, 0, 0], deferredCost := 0
    runLimit := vm.runLimit + stackCost vm.dataStack, dataStack := [] }

theorem cycleStart_cyclePassed (h : CycleStart vm) : CycleStart (cyclePassed vm) := by
  obtain ⟨hprog, -, hR, hcap⟩ := h
  have := stackCost_nonneg vm.dataStack
  exact ⟨hprog, rfl, by dsimp only [cyclePassed]; omega, by simp only [cyclePassed, stackCost_nil]; omega⟩

/-- A pass of `cycleProgram` costs nothing: the prefix gains `62 - 68`, `DROP` of the verdict
gains 7 and the jump back costs 1. -/
theorem loop_cycleProgram_pass (hcode : ctx.code = cycleProgram) (h : CycleStart vm) :
    (loop cr ctx (k + 6)).run vm = (loop cr ctx k).run (cyclePassed vm) := by
  obtain ⟨hprog, hpc, hR, hcap⟩ := h
  have hlen : cycleProgram.length = 62 := rfl
  obtain ⟨p₅, p₆⟩ := parseOp_cycleProgram
  have hS := stackCost_nonneg vm.dataStack
  unfold maxInt64 at hcap
  rw [cycleProgram_eq] at hprog
  rw [show k + 6 = k + 1 + 5 from rfl, loop_predicatePrefix hprog (by rw [← cycleProgram_eq]; decide)
    (by rw [hcode, hlen]; decide) hpc ⟨by omega, by unfold maxInt64; omega⟩ hR
    (by rw [hcode, hlen]; exact hcap)]
  rw [← cycleProgram_eq] at hprog
  simp only [hcode, hlen]
  -- DROP at 5: the child's false verdict is refunded
  rw [loop_drop_run (by simp only [hprog, hlen]; decide) (by simp only [hprog]; exact p₅)
    ⟨by simp only; omega, by simp only [stackCost_cons, stackCost_nil, List.length_nil, maxInt64]; omega⟩
    rfl (by simp only; omega)]
  simp (disch := decide) only [Nat.reduceAdd, uint32_of_lt]
  -- JUMP at 6, back to the start
  rw [loop_jump_run (by simp only [hprog, hlen]; decide) (by simp only [hprog]; exact p₆)
    ⟨by simp only [List.length_nil]; omega, by simp only [stackCost_nil, List.length_nil, maxInt64]; omega⟩
    (by decide) (by simp only [List.length_nil]; omega)]
  have hj : leUint32 [0, 0, 0, 0] = 0 := rfl
  simp only [hj, cyclePassed]
  congr 2
  simp only [List.length_nil]
  omega

/-- From the start of a pass, `cycleProgram` runs out of fuel whatever the fuel. -/
theorem loop_cycleProgram_outOfFuel (hcode : ctx.code = cycleProgram) (h : CycleStart vm) (k : Nat) :
    ∃ s, (loop cr ctx k).run vm = .error .outOfFuel s :=
  EStateM.error_of_progress (loop_extends cr ctx) (fun s => ⟨s, rfl⟩)
    (fun _ hs => ⟨6, _, by decide, cycleStart_cyclePassed hs, fun _ => loop_cycleProgram_pass hcode hs⟩)
    k vm h

/-- `Verify` of `cycleProgram` never returns, at any fuel, for every spend that can pay for its
state data, its arguments and the prefix. -/
theorem verify_cycleProgram (cr : Crypto) (ctx : Context) {gasLimit : Int} (hv : ctx.vmVersion = 1)
    (hcode : ctx.code = cycleProgram)
    (hc : 286 + stackCost ctx.stateData + stackCost ctx.arguments ≤ gasLimit)
    (h₁ : gasLimit + 62 ≤ maxInt64) (k : Nat) :
    verify cr ctx k gasLimit = none := by
  have hS := stackCost_nonneg ctx.stateData
  have hA := stackCost_nonneg ctx.arguments
  unfold maxInt64 at h₁
  obtain ⟨s, hs⟩ := @loop_cycleProgram_outOfFuel cr ctx (loadedVM ctx gasLimit) hcode
    ⟨hcode, rfl, by dsimp only [loadedVM]; omega,
      by simp only [loadedVM, stackCost_reverse]; unfold maxInt64; omega⟩ k
  exact verify_of_loop_outOfFuel cr ctx hv (by omega) (by unfold maxInt64; omega) (by omega) hs

theorem verify_cycleProgram_spend :
    verify constCrypto (spendContext cycleProgram [] []) 1000 300 = none :=
  verify_cycleProgram constCrypto _ rfl rfl (by decide) (by decide) 1000

end KuskCore.Vm
