import KuskCore.Vm.DataOps

/-!
# The numeric opcodes on the VM's numbers

`protocol/vm/numeric.go` computes in wrapping `uint256` arithmetic and calls a result out of range
when its top bit is set (`Sign() < 0`). The operands `AsBigInt` reads are below `2 ^ 255`
(`asBigInt_lt`), so a sum, a difference, a double or a product (which `MulOverflow` checks for
wrapping) wraps only past `2 ^ 256`, where the top-bit test cannot miss: these opcodes push the
exact result when it lies in `[0, 2 ^ 255)` and fail with `ErrRange` otherwise (`opAdd_run`,
`opSub_run`, `opMul_run`, `op1Add_run`, `op1Sub_run`, `op2Mul_run`). Division, remainder, the right
shifts, the comparisons, `MIN`, `MAX` and `WITHIN` are exact on naturals.

`LSHIFT` is the exception: `x << k` for `k < 256` wraps modulo `2 ^ 256`, and a wrapped value with
the top bit clear is pushed as if it were in range (`opLshift_run`): `2 LSHIFT 255` pushes `0`.

Each opcode is its cost, its pops and a continuation on the popped numbers; `binaryNumeric_run`
and `unaryNumeric_run` take the prefix apart once, and `checkedPush_run` the range test.
-/

namespace KuskCore.Vm

open GoInt EStateM

/-! ## Numbers and the range test -/

/-- `AsBigInt` reads only numbers below `2 ^ 255`. -/
theorem asBigInt_lt {b : Bytes} {n : Nat} (h : asBigInt b = .ok n) : n < 2 ^ 255 := by
  unfold asBigInt at h
  split at h
  · cases h
  · dsimp only at h
    split at h
    · cases h
    · rename_i hs
      cases h
      unfold sign at hs
      split at hs
      · omega
      · split at hs
        · assumption
        · simp at hs

/-- Below `2 ^ 256`, the top bit is set exactly from `2 ^ 255` on. -/
theorem negative_iff {z : Nat} (hz : z < 2 ^ 256) : negative z = true ↔ 2 ^ 255 ≤ z := by
  unfold negative sign
  constructor
  · intro h
    split at h
    · simp at h
    · split at h
      · simp at h
      · omega
  · intro h
    rw [if_neg (by omega), if_neg (by omega)]
    decide

/-- The state after a deferred push. -/
def pushedDeferred (v : VM) (d : Bytes) : VM :=
  { v with deferredCost := int64 (v.deferredCost + (8 + d.length)), dataStack := d :: v.dataStack }

theorem pushDataStack_deferred_run {v : VM} (d : Bytes) :
    (pushDataStack d true).run v = .ok () (pushedDeferred v d) := by
  rw [pushDataStack_run, if_pos rfl]
  rfl

/-- What a checked opcode with exact result `z` should do: push it when it lies in
`[0, 2 ^ 255)`, and fail with `ErrRange` otherwise. -/
def numericResult (v : VM) (z : Int) : EStateM.Result Exn VM Unit :=
  if 0 ≤ z ∧ z < 2 ^ 255 then .ok () (pushedDeferred v (bigIntBytes z.toNat))
  else .error (.err .range) v

/-- The range test on the wrapped value `w` of an exact result `z` is the range check on `z`, as
long as `z` lies in `[-2 ^ 255, 2 ^ 256)`: below it a negative result could wrap to a value with
the top bit clear, above it a large one. -/
theorem checkedPush_run {v : VM} {w : Nat} {z : Int} (hw : (w : Int) = z % 2 ^ 256)
    (h₁ : -2 ^ 255 ≤ z) (h₂ : z < 2 ^ 256) :
    (if negative w then throwErr .range else pushBigInt w true).run v = numericResult v z := by
  have hw' : w < 2 ^ 256 := by omega
  unfold numericResult
  by_cases hin : 0 ≤ z ∧ z < 2 ^ 255
  · have hz : w = z.toNat := by omega
    have hneg : negative w = false := by
      cases h : negative w with
      | false => rfl
      | true => exact absurd ((negative_iff hw').mp h) (by omega)
    rw [if_pos hin, hneg, hz]
    exact pushDataStack_deferred_run _
  · rw [if_neg hin, if_pos ((negative_iff hw').mpr (by omega))]
    rfl

/-! ## The pops of a numeric opcode -/

section Pops

variable {vm : VM} {xb yb : Bytes} {rest : List Bytes} {a b : Nat} {c : Int}

/-- The state once a numeric opcode has paid `c` and popped its numbers, with their costs
refunded as deferred. -/
def numericPopped (vm : VM) (c : Int) (popped : List Bytes) (rest : List Bytes) : VM :=
  { vm with
    runLimit := int64 (vm.runLimit - c)
    dataStack := rest
    deferredCost := popped.foldl (fun d x => int64 (d + -(8 + x.length))) vm.deferredCost }

/-- An opcode that pays `c` and pops two numbers runs its continuation on them. -/
theorem binaryNumeric_run {k : Nat → Nat → VmM Unit} (hs : vm.dataStack = yb :: xb :: rest)
    (hy : asBigInt yb = .ok b) (hx : asBigInt xb = .ok a) (hc : c ≤ vm.runLimit) :
    (do applyCost c; let y ← popBigInt true; let x ← popBigInt true; k x y : VmM Unit).run vm =
      (k a b).run (numericPopped vm c [yb, xb] rest) := by
  rw [run_bind_of_ok ((applyCost_eq_ok (u := ())).mpr ⟨hc, rfl⟩),
    run_bind_of_ok (Iff.mpr popBigInt_eq_ok ⟨yb, Iff.mpr pop_true_eq_ok ⟨xb :: rest, ?_, rfl⟩, hy⟩),
    run_bind_of_ok (Iff.mpr popBigInt_eq_ok ⟨xb, Iff.mpr pop_true_eq_ok ⟨rest, rfl, rfl⟩, hx⟩)]
  · rfl
  · exact hs

/-- An opcode that pays `c` and pops one number runs its continuation on it. -/
theorem unaryNumeric_run {k : Nat → VmM Unit} (hs : vm.dataStack = xb :: rest)
    (hx : asBigInt xb = .ok a) (hc : c ≤ vm.runLimit) :
    (do applyCost c; let x ← popBigInt true; k x : VmM Unit).run vm =
      (k a).run (numericPopped vm c [xb] rest) := by
  rw [run_bind_of_ok ((applyCost_eq_ok (u := ())).mpr ⟨hc, rfl⟩),
    run_bind_of_ok (Iff.mpr popBigInt_eq_ok ⟨xb, Iff.mpr pop_true_eq_ok ⟨rest, ?_, rfl⟩, hx⟩)]
  · rfl
  · exact hs

/-- An opcode that pays `c` and pops three numbers runs its continuation on them. -/
theorem ternaryNumeric_run {zb : Bytes} {d : Nat} {k : Nat → Nat → Nat → VmM Unit}
    (hs : vm.dataStack = zb :: yb :: xb :: rest) (hz : asBigInt zb = .ok d)
    (hy : asBigInt yb = .ok b) (hx : asBigInt xb = .ok a) (hc : c ≤ vm.runLimit) :
    (do applyCost c; let z ← popBigInt true; let y ← popBigInt true
        let x ← popBigInt true; k z y x : VmM Unit).run vm = (k d b a).run (numericPopped vm c [zb, yb, xb] rest) := by
  rw [run_bind_of_ok ((applyCost_eq_ok (u := ())).mpr ⟨hc, rfl⟩),
    run_bind_of_ok (Iff.mpr popBigInt_eq_ok ⟨zb, Iff.mpr pop_true_eq_ok ⟨yb :: xb :: rest, ?_, rfl⟩, hz⟩),
    run_bind_of_ok (Iff.mpr popBigInt_eq_ok ⟨yb, Iff.mpr pop_true_eq_ok ⟨xb :: rest, rfl, rfl⟩, hy⟩),
    run_bind_of_ok (Iff.mpr popBigInt_eq_ok ⟨xb, Iff.mpr pop_true_eq_ok ⟨rest, rfl, rfl⟩, hx⟩)]
  · rfl
  · exact hs

end Pops

/-! ## Each opcode on numbers below `2 ^ 255` -/

section Checked

variable {vm : VM} {xb yb : Bytes} {rest : List Bytes} {a b : Nat}

/-- `ADD` pushes `a + b` when it is below `2 ^ 255`, and fails with `ErrRange` otherwise. -/
theorem opAdd_run (hs : vm.dataStack = yb :: xb :: rest) (hy : asBigInt yb = .ok b)
    (hx : asBigInt xb = .ok a) (hc : 2 ≤ vm.runLimit) :
    opAdd.run vm = numericResult (numericPopped vm 2 [yb, xb] rest) (a + b) := by
  have ha := asBigInt_lt hx
  have hb := asBigInt_lt hy
  unfold opAdd
  refine (binaryNumeric_run hs hy hx hc).trans ?_
  exact checkedPush_run (by omega) (by omega) (by omega)

/-- `SUB` pushes `a - b` when `b ≤ a`, and fails with `ErrRange` when the difference is
negative. -/
theorem opSub_run (hs : vm.dataStack = yb :: xb :: rest) (hy : asBigInt yb = .ok b)
    (hx : asBigInt xb = .ok a) (hc : 2 ≤ vm.runLimit) :
    opSub.run vm = numericResult (numericPopped vm 2 [yb, xb] rest) (a - b : Int) := by
  have ha := asBigInt_lt hx
  have hb := asBigInt_lt hy
  unfold opSub
  refine (binaryNumeric_run hs hy hx hc).trans ?_
  exact checkedPush_run (by omega) (by omega) (by omega)

/-- `MUL` pushes `a * b` when it is below `2 ^ 255`: a product past `2 ^ 256` is caught by
`MulOverflow`, one in `[2 ^ 255, 2 ^ 256)` by the top bit. -/
theorem opMul_run (hs : vm.dataStack = yb :: xb :: rest) (hy : asBigInt yb = .ok b)
    (hx : asBigInt xb = .ok a) (hc : 8 ≤ vm.runLimit) :
    opMul.run vm = numericResult (numericPopped vm 8 [yb, xb] rest) (a * b) := by
  have hcast : ((a * b : Nat) : Int) = a * b := Int.natCast_mul a b
  unfold opMul
  refine (binaryNumeric_run hs hy hx hc).trans ?_
  dsimp only
  by_cases ho : 2 ^ 256 ≤ a * b
  · rw [decide_eq_true ho, Bool.true_or, if_pos rfl]
    unfold numericResult
    rw [if_neg (by omega)]
    rfl
  · rw [decide_eq_false ho, Bool.false_or]
    exact checkedPush_run (by omega) (by omega) (by omega)

/-- `1ADD` pushes `a + 1` when it is below `2 ^ 255`. -/
theorem op1Add_run (hs : vm.dataStack = xb :: rest) (hx : asBigInt xb = .ok a)
    (hc : 2 ≤ vm.runLimit) :
    op1Add.run vm = numericResult (numericPopped vm 2 [xb] rest) (a + 1) := by
  have ha := asBigInt_lt hx
  unfold op1Add
  refine (unaryNumeric_run hs hx hc).trans ?_
  exact checkedPush_run (by omega) (by omega) (by omega)

/-- `1SUB` pushes `a - 1`, and fails with `ErrRange` on `0`. -/
theorem op1Sub_run (hs : vm.dataStack = xb :: rest) (hx : asBigInt xb = .ok a)
    (hc : 2 ≤ vm.runLimit) :
    op1Sub.run vm = numericResult (numericPopped vm 2 [xb] rest) (a - 1 : Int) := by
  have ha := asBigInt_lt hx
  unfold op1Sub
  refine (unaryNumeric_run hs hx hc).trans ?_
  exact checkedPush_run (by omega) (by omega) (by omega)

/-- `2MUL` pushes `2 * a` when it is below `2 ^ 255`. -/
theorem op2Mul_run (hs : vm.dataStack = xb :: rest) (hx : asBigInt xb = .ok a)
    (hc : 2 ≤ vm.runLimit) :
    op2Mul.run vm = numericResult (numericPopped vm 2 [xb] rest) (a * 2) := by
  have ha := asBigInt_lt hx
  unfold op2Mul
  refine (unaryNumeric_run hs hx hc).trans ?_
  exact checkedPush_run (by omega) (by omega) (by omega)

end Checked

/-! ## The opcodes that cannot leave the range -/

section Unchecked

variable {vm : VM} {xb yb zb : Bytes} {rest : List Bytes} {a b d : Nat}

theorem pushBigInt_deferred_run {v : VM} (n : Nat) :
    (pushBigInt n true).run v = .ok () (pushedDeferred v (bigIntBytes n)) :=
  pushDataStack_deferred_run _

/-- A right shift by `k` is the quotient by `2 ^ k` for the VM's numbers, also where `RSHIFT`
clears a shift of `256` or more. -/
theorem rshift_eq_div {k : Nat} (ha : a < 2 ^ 255) :
    (if k < 256 then a >>> k else 0) = a / 2 ^ k := by
  split
  · exact Nat.shiftRight_eq_div_pow a k
  · have hk : 2 ^ 255 < 2 ^ k := Nat.pow_lt_pow_right (by decide) (by omega)
    exact (Nat.div_eq_of_lt (by omega)).symm

/-- `DIV` fails with `ErrDivZero` on `b = 0` and pushes `a / b` otherwise. -/
theorem opDiv_run (hs : vm.dataStack = yb :: xb :: rest) (hy : asBigInt yb = .ok b)
    (hx : asBigInt xb = .ok a) (hc : 8 ≤ vm.runLimit) :
    opDiv.run vm = if b = 0 then .error (.err .divZero) (numericPopped vm 8 [yb, xb] rest)
      else .ok () (pushedDeferred (numericPopped vm 8 [yb, xb] rest) (bigIntBytes (a / b))) := by
  unfold opDiv
  refine (binaryNumeric_run hs hy hx hc).trans ?_
  by_cases hb : b = 0
  · rw [if_pos hb, if_pos hb]
    rfl
  · rw [if_neg hb, if_neg hb]
    exact pushBigInt_deferred_run _

/-- `MOD` fails with `ErrDivZero` on `b = 0` and pushes `a % b` otherwise. -/
theorem opMod_run (hs : vm.dataStack = yb :: xb :: rest) (hy : asBigInt yb = .ok b)
    (hx : asBigInt xb = .ok a) (hc : 8 ≤ vm.runLimit) :
    opMod.run vm = if b = 0 then .error (.err .divZero) (numericPopped vm 8 [yb, xb] rest)
      else .ok () (pushedDeferred (numericPopped vm 8 [yb, xb] rest) (bigIntBytes (a % b))) := by
  unfold opMod
  refine (binaryNumeric_run hs hy hx hc).trans ?_
  by_cases hb : b = 0
  · rw [if_pos hb, if_pos hb]
    rfl
  · rw [if_neg hb, if_neg hb]
    exact pushBigInt_deferred_run _

/-- `2DIV` pushes `a / 2`. -/
theorem op2Div_run (hs : vm.dataStack = xb :: rest) (hx : asBigInt xb = .ok a)
    (hc : 2 ≤ vm.runLimit) :
    op2Div.run vm = .ok () (pushedDeferred (numericPopped vm 2 [xb] rest) (bigIntBytes (a / 2))) := by
  unfold op2Div
  refine (unaryNumeric_run hs hx hc).trans ?_
  rw [Nat.shiftRight_eq_div_pow, Nat.pow_one]
  exact pushBigInt_deferred_run _

/-- `RSHIFT` by `k` pushes `a / 2 ^ k`, which is `0` for a shift of `256` or more. -/
theorem opRshift_run {k : Nat} (hs : vm.dataStack = yb :: xb :: rest) (hy : asBigInt yb = .ok k)
    (hx : asBigInt xb = .ok a) (hc : 8 ≤ vm.runLimit) :
    opRshift.run vm =
      .ok () (pushedDeferred (numericPopped vm 8 [yb, xb] rest) (bigIntBytes (a / 2 ^ k))) := by
  unfold opRshift
  refine (binaryNumeric_run hs hy hx hc).trans ?_
  rw [rshift_eq_div (asBigInt_lt hx)]
  exact pushBigInt_deferred_run _

/-- A comparison pushes the order of the naturals `a` and `b`. -/
theorem doNumCompare_run (op : NumCmp) (hs : vm.dataStack = yb :: xb :: rest)
    (hy : asBigInt yb = .ok b) (hx : asBigInt xb = .ok a) (hc : 2 ≤ vm.runLimit) :
    (doNumCompare op).run vm =
      .ok () (pushedDeferred (numericPopped vm 2 [yb, xb] rest) (boolBytes (op.eval a b))) := by
  unfold doNumCompare
  refine (binaryNumeric_run hs hy hx hc).trans ?_
  exact pushDataStack_deferred_run _

/-- `NUMEQUALVERIFY` passes exactly on equal numbers. -/
theorem opNumEqualVerify_run (hs : vm.dataStack = yb :: xb :: rest) (hy : asBigInt yb = .ok b)
    (hx : asBigInt xb = .ok a) (hc : 2 ≤ vm.runLimit) :
    opNumEqualVerify.run vm = if a = b then .ok () (numericPopped vm 2 [yb, xb] rest)
      else .error (.err .verifyFailed) (numericPopped vm 2 [yb, xb] rest) := by
  unfold opNumEqualVerify
  refine (binaryNumeric_run hs hy hx hc).trans ?_
  by_cases hab : a = b
  · rw [if_pos hab, if_pos hab]
    rfl
  · rw [if_neg hab, if_neg hab]
    rfl

/-- `MIN` pushes the smaller number. -/
theorem opMin_run (hs : vm.dataStack = yb :: xb :: rest) (hy : asBigInt yb = .ok b)
    (hx : asBigInt xb = .ok a) (hc : 2 ≤ vm.runLimit) :
    opMin.run vm =
      .ok () (pushedDeferred (numericPopped vm 2 [yb, xb] rest) (bigIntBytes (min a b))) := by
  unfold opMin
  refine (binaryNumeric_run hs hy hx hc).trans ?_
  by_cases hab : a > b
  · rw [if_pos hab, Nat.min_eq_right (by omega)]
    exact pushBigInt_deferred_run _
  · rw [if_neg hab, Nat.min_eq_left (by omega)]
    exact pushBigInt_deferred_run _

/-- `MAX` pushes the larger number. -/
theorem opMax_run (hs : vm.dataStack = yb :: xb :: rest) (hy : asBigInt yb = .ok b)
    (hx : asBigInt xb = .ok a) (hc : 2 ≤ vm.runLimit) :
    opMax.run vm =
      .ok () (pushedDeferred (numericPopped vm 2 [yb, xb] rest) (bigIntBytes (max a b))) := by
  unfold opMax
  refine (binaryNumeric_run hs hy hx hc).trans ?_
  by_cases hab : a < b
  · rw [if_pos hab, Nat.max_eq_right (by omega)]
    exact pushBigInt_deferred_run _
  · rw [if_neg hab, Nat.max_eq_left (by omega)]
    exact pushBigInt_deferred_run _

/-- `WITHIN` pushes whether `a` lies in `[lo, hi)`, with `hi` on top and `lo` below it. -/
theorem opWithin_run {lo hi : Nat} (hs : vm.dataStack = zb :: yb :: xb :: rest)
    (hz : asBigInt zb = .ok hi) (hy : asBigInt yb = .ok lo) (hx : asBigInt xb = .ok a)
    (hc : 4 ≤ vm.runLimit) :
    opWithin.run vm = .ok () (pushedDeferred (numericPopped vm 4 [zb, yb, xb] rest)
      (boolBytes (decide (lo ≤ a ∧ a < hi)))) := by
  unfold opWithin
  refine (ternaryNumeric_run hs hz hy hx hc).trans ?_
  rw [Bool.decide_and]
  exact pushDataStack_deferred_run _

end Unchecked

/-! ## `LSHIFT` -/

section Lshift

variable {vm : VM} {xb yb : Bytes} {rest : List Bytes} {a k : Nat}

/-- `LSHIFT` by `k < 256` computes `a * 2 ^ k` modulo `2 ^ 256` and applies the range test to
the wrapped value: the exact product is not what is checked. -/
theorem opLshift_run (hs : vm.dataStack = yb :: xb :: rest) (hy : asBigInt yb = .ok k)
    (hx : asBigInt xb = .ok a) (hc : 8 ≤ vm.runLimit) :
    opLshift.run vm = numericResult (numericPopped vm 8 [yb, xb] rest)
      (if k < 256 then a * 2 ^ k % 2 ^ 256 else 0 : Nat) := by
  have hw : (if k < 256 then a <<< k % 2 ^ 256 else 0) =
      (if k < 256 then a * 2 ^ k % 2 ^ 256 else 0) := by
    rw [Nat.shiftLeft_eq]
  have hlt : (if k < 256 then a * 2 ^ k % 2 ^ 256 else 0) < 2 ^ 256 := by
    split <;> omega
  unfold opLshift
  refine (binaryNumeric_run hs hy hx hc).trans ?_
  dsimp only
  rw [hw]
  exact checkedPush_run (by omega) (by omega) (by omega)

/-- A VM about to run `2 LSHIFT 255`: `255` on top of `2`, and just the gas for it. -/
def lshiftVM : VM :=
  { program := [], pc := 0, nextPC := 0, runLimit := 8, deferredCost := 0,
    expansionReserved := false, data := [], depth := 0, dataStack := [[255], [2]], altStack := [],
    altStackNil := true }

theorem opLshift_run_two_255 :
    opLshift.run lshiftVM = numericResult (numericPopped lshiftVM 8 [[255], [2]] [])
      (if 255 < 256 then 2 * 2 ^ 255 % 2 ^ 256 else 0 : Nat) :=
  opLshift_run rfl (by rfl) (by rfl) (by decide)

/-- `2 LSHIFT 255` pushes `0` (the empty item), where the exact product `2 ^ 256` is out of
range. -/
theorem opLshift_two_255 :
    2 ^ 255 ≤ 2 * 2 ^ 255 ∧
      opLshift.run lshiftVM =
        .ok () (pushedDeferred (numericPopped lshiftVM 8 [[255], [2]] []) (bigIntBytes 0)) := by
  have hy : asBigInt [255] = .ok 255 := rfl
  have hx : asBigInt [2] = .ok 2 := rfl
  have hwrap : (if 255 < 256 then 2 <<< 255 % 2 ^ 256 else 0) = 0 := by decide
  refine ⟨by decide, ?_⟩
  unfold opLshift
  refine (binaryNumeric_run rfl hy hx (by decide)).trans ?_
  dsimp only
  rw [hwrap, if_neg (by decide)]
  exact pushBigInt_deferred_run 0

end Lshift

end KuskCore.Vm
