import KuskCore.Vm.Exec

/-!
# Expansion opcodes at every depth

`step` refuses an expansion opcode (a byte `init` in `ops.go` leaves without a name, run as
`NOPx`) exactly when the running machine's `expansionReserved` is set (`step_expansion_run`).
`Verify` sets the flag for a version-1 transaction, but `opCheckPredicate` builds its child field
by field and leaves the flag at its zero value (`childVM`). So a program that starts with an
expansion opcode is refused as a version-1 spend and runs past it as a predicate, at any depth
and on any stack (`expansion_unreserved_in_predicates`). `CHECKOUTPUT` hands the same flag to
`CheckOutput`, which therefore sees `true` at the top and `false` in a predicate.
`nestedExpansion_counterexample` runs both differences as concrete spends.
-/

namespace KuskCore.Vm

open GoInt KuskCore.Checked EStateM

variable (cr : Crypto) (ctx : Context) {vm : VM} {k : Nat}

/-- An expansion opcode is refused where expansion is reserved and otherwise costs one. -/
theorem step_expansion_run {child : VmM Unit} {inst : Instruction}
    (hp : parseOp vm.program vm.pc = .ok inst) (hx : isExpansion inst.op = true) :
    (step cr ctx child).run vm = if vm.expansionReserved then
        .error (.err .disallowedOpcode) { vm with nextPC := uint32 (vm.pc + inst.len) }
      else (applyCost 1).run { vm with
        nextPC := uint32 (vm.pc + inst.len), pc := uint32 (vm.pc + inst.len) } := by
  unfold step
  simp only [run_bind, run_get, hp, liftErr, run_pure, run_set, hx, if_true]
  cases vm.expansionReserved with
  | true => rfl
  | false => rfl

/-- Where expansion is reserved, the loop stops at an expansion opcode. -/
theorem loop_expansion_reserved {inst : Instruction} (hpc : vm.pc < uint32 vm.program.length)
    (hp : parseOp vm.program vm.pc = .ok inst) (hx : isExpansion inst.op = true)
    (hr : vm.expansionReserved = true) :
    (loop cr ctx (k + 1)).run vm =
      .error (.err .disallowedOpcode) { vm with nextPC := uint32 (vm.pc + inst.len) } := by
  rw [loop_succ_run cr ctx hpc, run_bind_of_error]
  rw [step_expansion_run cr ctx hp hx, if_pos hr]

/-- Where it is not, the loop steps past the opcode for one unit of gas. -/
theorem loop_expansion_unreserved {inst : Instruction} (hpc : vm.pc < uint32 vm.program.length)
    (hp : parseOp vm.program vm.pc = .ok inst) (hx : isExpansion inst.op = true)
    (hr : vm.expansionReserved = false) (hR : 1 ≤ vm.runLimit) (hb : vm.runLimit ≤ maxInt64) :
    (loop cr ctx (k + 1)).run vm = (loop cr ctx k).run { vm with
      nextPC := uint32 (vm.pc + inst.len), pc := uint32 (vm.pc + inst.len)
      runLimit := vm.runLimit - 1 } := by
  have hstep : (step cr ctx (childRun cr ctx k)).run vm = .ok () { vm with
      nextPC := uint32 (vm.pc + inst.len), pc := uint32 (vm.pc + inst.len)
      runLimit := vm.runLimit - 1 } := by
    rw [step_expansion_run cr ctx hp hx, hr, if_neg Bool.false_ne_true, applyCost_run,
      if_neg (by dsimp only; omega),
      int64_of_mem (by dsimp only; unfold minInt64; omega) (by dsimp only; omega)]
  rw [loop_succ_run cr ctx hpc, run_bind_of_ok hstep]

/-- A version-1 spend whose program starts with an expansion opcode is refused at it, whatever
its gas; the same program run as a predicate, at any depth and on any stack, runs past it. -/
theorem expansion_unreserved_in_predicates {p : Bytes} {inst : Instruction} {L g : Int}
    (d : Nat) (st : List Bytes) (hv : ctx.txVersion = some 1) (hcode : ctx.code = p)
    (hpc : 0 < uint32 p.length) (hp : parseOp p 0 = .ok inst) (hx : isExpansion inst.op = true)
    (hL : 1 ≤ L) (hLb : L ≤ maxInt64) :
    (loop cr ctx (k + 1)).run (loadedVM ctx g) =
        .error (.err .disallowedOpcode) { loadedVM ctx g with nextPC := uint32 inst.len } ∧
      (loop cr ctx (k + 1)).run (childVM p L d st) = (loop cr ctx k).run { childVM p L d st with
        nextPC := uint32 inst.len, pc := uint32 inst.len, runLimit := L - 1 } := by
  subst hcode
  -- `Verify` sets the flag from the transaction version; `childVM` leaves it off
  have htop : (loadedVM ctx g).expansionReserved = true := by
    simp only [loadedVM, initialVM, hv]
    decide
  have hpc₁ : (loadedVM ctx g).pc = 0 := rfl
  have hpc₂ : (childVM ctx.code L d st).pc = 0 := rfl
  constructor
  · have h := loop_expansion_reserved cr ctx (k := k) hpc hp hx htop
    rwa [hpc₁, Nat.zero_add] at h
  · have h := loop_expansion_unreserved cr ctx (k := k)
      (show (childVM ctx.code L d st).pc < uint32 (childVM ctx.code L d st).program.length from hpc)
      hp hx rfl hL hLb
    rwa [hpc₂, Nat.zero_add] at h

/-- `[NOP 0x50, 1]`: an expansion opcode, then true. -/
def expansionProgram : Bytes := [0x50, Op.op1]

theorem expansion_unreserved_in_predicates_expansionProgram :
    (loop constCrypto (spendContext expansionProgram [] []) 3).run
        (loadedVM (spendContext expansionProgram [] []) 100) =
      .error (.err .disallowedOpcode)
        { loadedVM (spendContext expansionProgram [] []) 100 with nextPC := uint32 1 } ∧
      (loop constCrypto (spendContext expansionProgram [] []) 3).run
        (childVM expansionProgram 100 0 []) =
      (loop constCrypto (spendContext expansionProgram [] []) 2).run
        { childVM expansionProgram 100 0 [] with
          nextPC := uint32 1, pc := uint32 1, runLimit := 100 - 1 } :=
  expansion_unreserved_in_predicates constCrypto (spendContext expansionProgram [] []) 0 [] rfl
    rfl (by decide) rfl rfl (by decide) (by decide)

/-- `0 [NOP 0x50, 1] 0 CHECKPREDICATE`: `expansionProgram` as a predicate on the empty stack, with
the whole run limit. -/
def nestedExpansionProgram : Bytes :=
  [Op.op0, Op.data1 + 1, 0x50, Op.op1, Op.op0, Op.checkPredicate]

/-- A context whose `CheckOutput` answers with the expansion flag it is given. -/
def flagContext (code : Bytes) : Context :=
  { spendContext code [] [] with checkOutput := some fun _ _ _ _ _ _ expansion => .ok expansion }

/-- `0 0 0 0 0 CHECKOUTPUT`. -/
def checkOutputProgram : Bytes := [Op.op0, Op.op0, Op.op0, Op.op0, Op.op0, 0xc1]

/-- `checkOutputProgram` as a predicate on the empty stack. -/
def nestedCheckOutputProgram : Bytes :=
  [Op.op0, Op.data1 + 5, Op.op0, Op.op0, Op.op0, Op.op0, Op.op0, 0xc1, Op.op0, Op.checkPredicate]

/-- As version-1 spends, `expansionProgram` is refused while the predicate that runs it succeeds;
and `CheckOutput` sees the flag set at the top and unset in a predicate, so the same
`CHECKOUTPUT` gives true at depth zero and false at depth one. -/
theorem nestedExpansion_counterexample :
    verify constCrypto (spendContext expansionProgram [] []) 10 1000 =
        some (1000, some .disallowedOpcode) ∧
      verify constCrypto (spendContext nestedExpansionProgram [] []) 10 1000 = some (922, none) ∧
      verify constCrypto (flagContext checkOutputProgram) 12 1000 = some (970, none) ∧
      verify constCrypto (flagContext nestedCheckOutputProgram) 12 1000 =
        some (904, some .falseVMResult) := by
  refine ⟨?_, ?_, ?_, ?_⟩ <;> decide +kernel

end KuskCore.Vm
