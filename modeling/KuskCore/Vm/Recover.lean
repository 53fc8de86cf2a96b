import KuskCore.Vm.Exec

/-!
# Runtime faults and the `recover` of `Verify`

`Verify` recovers from a Go runtime panic and reports `ErrUnexpected` with no gas left; an
opcode is meant never to get there, and to fail with a named error instead. `PICK` and `ROLL`
both read their operand as `int64(n.Uint64())`, so an operand of `2 ^ 63` or more becomes a
negative number and the offset `n + 1` is at most zero.

* `ROLL` hands the offset to `rot`, which rejects offsets below one before it indexes:
  `opRoll_avoids` shows it never panics, from the panic-freedom of each piece.
* `PICK` only checks the offset against the stack size, which a non-positive offset passes, and
  then indexes at or past the top: `opPick_run_panic`.
* `verify_pickMax_unexpected`: any spend of the two-instruction program that pushes `2 ^ 64 - 1`
  and picks ends in `ErrUnexpected`, whatever its state data and arguments.
-/

namespace KuskCore.Vm

open GoInt KuskCore.Checked EStateM

/-! ## Pieces that never panic -/

theorem err_ne_panic (e : VMError) : Exn.err e ≠ .panic := nofun

theorem throwErr_avoids {α : Type} (e : VMError) : Avoids .panic (throwErr e : VmM α) :=
  avoids_throw (err_ne_panic e)

theorem applyCost_avoids (n : Int) : Avoids .panic (applyCost n) := by
  unfold applyCost
  refine avoids_bind avoids_get fun vm => avoids_ite ?_ (avoids_set _)
  exact avoids_bind (avoids_set _) fun _ => throwErr_avoids _

theorem pop_avoids (deferred : Bool) : Avoids .panic (pop deferred) := by
  unfold pop
  refine avoids_bind avoids_get fun vm => ?_
  split
  · exact throwErr_avoids _
  · refine avoids_bind (avoids_set _) fun _ => ?_
    dsimp only
    exact avoids_ite (avoids_bind (avoids_modify _) fun _ => avoids_pure _)
      (avoids_bind (avoids_modify _) fun _ => avoids_pure _)

theorem liftErr_avoids {α : Type} (x : Except VMError α) : Avoids .panic (liftErr x) := by
  cases x with
  | ok a => exact avoids_pure a
  | error e => exact throwErr_avoids e

theorem popBigInt_avoids (deferred : Bool) : Avoids .panic (popBigInt deferred) :=
  avoids_bind (pop_avoids deferred) fun _ => liftErr_avoids _

theorem dataStackAt_run_of_lt {vm : VM} {k : Int} (h₀ : 0 ≤ k) (h₁ : k < vm.dataStack.length) :
    (dataStackAt k).run vm = .ok (vm.dataStack.getD (vm.dataStack.length - 1 - k.toNat) []) vm := by
  unfold dataStackAt
  rw [run_bind_of_ok (run_get _), if_pos ⟨h₀, h₁⟩]
  rfl

/-- `rot` checks its offset against `1` and the stack size before it indexes. -/
theorem rot_avoids (n : Int) : Avoids .panic (rot n) := by
  intro vm vm'
  unfold rot
  split
  · exact throwErr_avoids _ vm vm'
  · rename_i hn
    rw [run_bind_of_ok (run_get _)]
    dsimp only
    split
    · exact throwErr_avoids _ vm vm'
    · rename_i hl
      rw [run_bind_of_ok (dataStackAt_run_of_lt (by omega) (by omega))]
      exact avoids_modify _ vm vm'

theorem opRoll_avoids : Avoids .panic opRoll := by
  unfold opRoll
  refine avoids_bind (applyCost_avoids 2) fun _ => avoids_bind (popBigInt_avoids false) fun n => ?_
  split
  · exact throwErr_avoids _
  · exact rot_avoids _

/-! ## `PICK` with an operand of `2 ^ 63` or more -/

/-- `PICK` on an operand whose low 64 bits are `2 ^ 63` or more indexes out of range. The stack
is shorter than `2 ^ 63`, as a Go slice is. -/
theorem opPick_run_panic {vm : VM} {x : Bytes} {rest : List Bytes} {n : Nat}
    (hR : 2 ≤ vm.runLimit) (hs : vm.dataStack = x :: rest) (hl : vm.dataStack.length < 2 ^ 63)
    (hx : asBigInt x = .ok n) (hn : 2 ^ 63 ≤ uint64 n) :
    ∃ s, opPick.run vm = .error .panic s := by
  have hu : uint64 n < 2 ^ 64 := Nat.mod_lt _ (Nat.two_pow_pos 64)
  -- the offset is `uint64 n - 2 ^ 64 + 1`, at most zero, and its addition does not overflow
  have hoff : addInt64 (int64 (uint64 n)) 1 = some ((uint64 n : Int) - 2 ^ 64 + 1) := by
    rw [int64_natCast_of_ge hn hu]
    exact addInt64_eq_some (by unfold minInt64; omega) (by unfold maxInt64; omega)
  have h₁ : (applyCost 2).run vm = .ok () { vm with runLimit := int64 (vm.runLimit - 2) } := by
    rw [applyCost_run, if_neg (by omega)]
  have h₂ : (popBigInt false).run { vm with runLimit := int64 (vm.runLimit - 2) } =
      .ok n { vm with runLimit := int64 (int64 (vm.runLimit - 2) + (8 + x.length)), dataStack := rest } :=
    Iff.mpr popBigInt_eq_ok ⟨x, Iff.mpr pop_false_eq_ok ⟨rest, hs, rfl⟩, hx⟩
  rw [opPick, run_bind_of_ok h₁, run_bind_of_ok h₂]
  simp only [hoff]
  rw [hs, List.length_cons] at hl
  -- the index `size - off` is at least the size, or wraps to a negative `int64`
  have hk : ¬ (0 ≤ int64 (rest.length - ((uint64 n : Int) - 2 ^ 64 + 1)) ∧
      int64 (rest.length - ((uint64 n : Int) - 2 ^ 64 + 1)) < rest.length) := by
    by_cases hy : (rest.length : Int) - ((uint64 n : Int) - 2 ^ 64 + 1) < 2 ^ 63
    · rw [int64_of_le (by omega) hy]
      omega
    · rw [int64_of_ge (by omega) (by omega)]
      omega
  rw [run_bind_of_ok (run_get _), if_neg (by omega), run_bind_of_error (dataStackAt_run_panic hk)]
  exact ⟨_, rfl⟩

/-- `PUSHDATA 0xffffffffffffffff PICK`. -/
def pickMaxProgram : Bytes := pushDataBytes (List.replicate 8 0xff) ++ [Op.pick]

variable (cr : Crypto) (ctx : Context)

/-- Every spend of `pickMaxProgram` with the gas for its state data, its arguments and the 19
units of the two instructions ends in `ErrUnexpected`: the `recover` branch of `Verify`. -/
theorem verify_pickMax_unexpected {k : Nat} {gasLimit : Int} (hv : ctx.vmVersion = 1)
    (hcode : ctx.code = pickMaxProgram) (h₀ : 0 ≤ gasLimit) (h₁ : gasLimit ≤ maxInt64)
    (hc : 19 + stackCost ctx.stateData + stackCost ctx.arguments ≤ gasLimit) :
    verify cr ctx (k + 2) gasLimit = some (0, some .unexpected) := by
  have hS := stackCost_nonneg ctx.stateData
  have hA := length_le_stackCost ctx.arguments
  unfold maxInt64 at h₁
  have hp₀ : parseOp (loadedVM ctx gasLimit).program (loadedVM ctx gasLimit).pc =
      .ok ⟨8, 9, List.replicate 8 0xff⟩ := by
    show parseOp ctx.code 0 = _
    rw [hcode]
    rfl
  -- the push step, from the loaded machine
  have hstep : (step cr ctx (childRun cr ctx (k + 1))).run (loadedVM ctx gasLimit) = .ok ()
      { loadedVM ctx gasLimit with
        pc := 9, nextPC := 9, deferredCost := 0, data := List.replicate 8 0xff
        runLimit := gasLimit - stackCost ctx.stateData - stackCost ctx.arguments - 17
        dataStack := List.replicate 8 0xff :: ctx.arguments.reverse } := by
    rw [step_eq_ok cr ctx hp₀ rfl]
    refine ⟨_, Iff.mpr opPushdata_eq_ok ⟨?_, ?_, rfl⟩, ?_, ?_⟩
    all_goals simp (disch := omega) only [loadedVM, List.length_replicate, int64_of_le]
    · omega
    · omega
    · omega
    · simp only [Int.sub_zero]
      congr 1
      omega
  -- the machine after the push, where `PICK` decodes
  obtain ⟨v₁, hv₁⟩ : ∃ v₁ : VM, v₁ = { loadedVM ctx gasLimit with
      pc := 9, nextPC := 9, deferredCost := 0, data := List.replicate 8 0xff
      runLimit := gasLimit - stackCost ctx.stateData - stackCost ctx.arguments - 17
      dataStack := List.replicate 8 0xff :: ctx.arguments.reverse } := ⟨_, rfl⟩
  rw [← hv₁] at hstep
  have hp₁ : parseOp v₁.program v₁.pc = .ok ⟨Op.pick, 1, []⟩ := by
    rw [hv₁]
    show parseOp ctx.code 9 = _
    rw [hcode]
    rfl
  -- the `PICK` step panics on `2 ^ 64 - 1`
  obtain ⟨s, hpick⟩ := @opPick_run_panic { v₁ with
      nextPC := uint32 (v₁.pc + 1), deferredCost := 0, data := [] }
    (List.replicate 8 0xff) ctx.arguments.reverse (2 ^ 64 - 1) (by subst hv₁; dsimp only; omega)
    (by subst hv₁; rfl) (by subst hv₁; simp only [List.length_cons, List.length_reverse]; omega)
    rfl (by decide)
  have hloop : (loop cr ctx (k + 2)).run (loadedVM ctx gasLimit) = .error .panic s := by
    rw [loop_succ_run cr ctx (by show 0 < uint32 ctx.code.length; rw [hcode]; decide),
      run_bind_of_ok hstep,
      loop_succ_run cr ctx (by subst hv₁; show 9 < uint32 ctx.code.length; rw [hcode]; decide),
      run_bind_of_error (step_run_of_error cr ctx hp₁ rfl hpick)]
  exact verify_of_loop_panic cr ctx hv h₀ (by unfold maxInt64; omega) (by omega) hloop

theorem verify_pickMax_unexpected_spend :
    verify constCrypto (spendContext pickMaxProgram [] []) 2 100 = some (0, some .unexpected) :=
  verify_pickMax_unexpected constCrypto _ rfl rfl (by decide) (by decide) (by decide)

end KuskCore.Vm
