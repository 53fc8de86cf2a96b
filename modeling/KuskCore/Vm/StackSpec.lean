import KuskCore.Vm.StackOps

/-!
# The stack opcodes against their reference permutations

`StackOp.reference` says what each opcode of `protocol/vm/stack.go` is for: the stacks it leaves,
top first, or `none` where the stacks are too shallow (for `PICK` and `ROLL`: where the popped
number `n` is not below the depth of the rest). `Implements` is the agreement of one run with it:
no result is an underflow or bad-value error, a result is a success with exactly those stacks.

Every opcode agrees with the reference (`stackOps_implement_reference`) when it has the gas for its
pushes (`GasRoom`) and the number `PICK` or `ROLL` pops is below `2 ^ 63`. Past that the source's
`int64(n.Uint64())` takes over: `PICK` and `ROLL` read `n` modulo `2 ^ 64` (`opPick_run`,
`opRoll_run`), so that `PICK 2 ^ 64` copies the top item and `ROLL 2 ^ 64` succeeds on any
non-empty stack (`pickRoll_two_pow_64`).

The runs are taken apart with gas lemmas that remove the `int64` wraps (`applyCost_run_of_le`,
`pushDataStack_false_run_of_le`, `pop_false_run_of_le`) and one lemma per pass of `nDup`'s loop.
-/

namespace KuskCore.Vm

open GoInt KuskCore.Checked EStateM

/-! ## The reference -/

/-- The opcodes of `stack.go`. -/
inductive StackOp where
  | toAltStack | fromAltStack | drop2 | dup2 | dup3 | over2 | rot2 | swap2 | ifDup | depth
  | drop | dup | nip | over | pick | roll | rot | swap | tuck
  deriving DecidableEq, Repr

/-- The function of `stack.go` each opcode runs. -/
def StackOp.exec : StackOp → VmM Unit
  | .toAltStack => opToAltStack
  | .fromAltStack => opFromAltStack
  | .drop2 => op2Drop
  | .dup2 => op2Dup
  | .dup3 => op3Dup
  | .over2 => op2Over
  | .rot2 => op2Rot
  | .swap2 => op2Swap
  | .ifDup => opIfDup
  | .depth => opDepth
  | .drop => opDrop
  | .dup => opDup
  | .nip => opNip
  | .over => opOver
  | .pick => opPick
  | .roll => opRoll
  | .rot => opRot
  | .swap => opSwap
  | .tuck => opTuck

/-- The stacks each opcode should leave, data stack and alt stack top first, or `none` where they
are too shallow for it. -/
def StackOp.reference : StackOp → List Bytes → List Bytes → Option (List Bytes × List Bytes)
  | .toAltStack, x :: s, a => some (s, x :: a)
  | .fromAltStack, s, x :: a => some (x :: s, a)
  | .drop2, _ :: _ :: s, a => some (s, a)
  | .dup2, x :: y :: s, a => some (x :: y :: x :: y :: s, a)
  | .dup3, x :: y :: z :: s, a => some (x :: y :: z :: x :: y :: z :: s, a)
  | .over2, w :: x :: y :: z :: s, a => some (y :: z :: w :: x :: y :: z :: s, a)
  | .rot2, u :: v :: w :: x :: y :: z :: s, a => some (y :: z :: u :: v :: w :: x :: s, a)
  | .swap2, w :: x :: y :: z :: s, a => some (y :: z :: w :: x :: s, a)
  | .ifDup, x :: s, a => some (if asBool x then x :: x :: s else x :: s, a)
  | .depth, s, a => some (bigIntBytes s.length :: s, a)
  | .drop, _ :: s, a => some (s, a)
  | .dup, x :: s, a => some (x :: x :: s, a)
  | .nip, x :: _ :: s, a => some (x :: s, a)
  | .over, x :: y :: s, a => some (y :: x :: y :: s, a)
  | .pick, nb :: s, a =>
    match asBigInt nb with
    | .ok n => s[n]?.map fun x => (x :: s, a)
    | .error _ => none
  | .roll, nb :: s, a =>
    match asBigInt nb with
    | .ok n => s[n]?.map fun x => (x :: s.eraseIdx n, a)
    | .error _ => none
  | .rot, x :: y :: z :: s, a => some (z :: x :: y :: s, a)
  | .swap, x :: y :: s, a => some (y :: x :: s, a)
  | .tuck, x :: y :: s, a => some (x :: y :: x :: s, a)
  | _, _, _ => none

/-- A run agrees with a reference outcome: no outcome is an underflow or bad-value error, an
outcome is a success with exactly its stacks. -/
def Implements (r : EStateM.Result Exn VM Unit) : Option (List Bytes × List Bytes) → Prop
  | none => ∃ e s, r = .error (.err e) s ∧
      (e = .dataStackUnderflow ∨ e = .altStackUnderflow ∨ e = .badValue)
  | some (d, a) => ∃ vm', r = .ok () vm' ∧ vm'.dataStack = d ∧ vm'.altStack = a

/-- Gas for any stack opcode's pushes, and room under `maxInt64` for its refunds; the stack is
shorter than `2 ^ 63`, as a Go slice is. -/
structure GasRoom (vm : VM) : Prop where
  bounded : vm.runLimit ≤ maxInt64
  depth : 1 + (8 + ((bigIntBytes vm.dataStack.length).length : Int)) ≤ vm.runLimit
  push : ∀ x ∈ vm.dataStack, 3 + 3 * (8 + (x.length : Int)) ≤ vm.runLimit
  refund : ∀ x ∈ vm.dataStack, vm.runLimit + (8 + x.length) ≤ maxInt64
  short : vm.dataStack.length < 2 ^ 63

/-- The number `PICK` and `ROLL` pop is below `2 ^ 63`. -/
def StackOp.ArgFits : StackOp → List Bytes → Prop
  | .pick, nb :: _ => ∃ n, asBigInt nb = .ok n ∧ n < 2 ^ 63
  | .roll, nb :: _ => ∃ n, asBigInt nb = .ok n ∧ n < 2 ^ 63
  | _, _ => True

section Outcome

variable {r : EStateM.Result Exn VM Unit}

theorem implements_underflow {s : VM} (h : r = .error (.err .dataStackUnderflow) s) :
    Implements r none := ⟨_, s, h, .inl rfl⟩

theorem implements_badValue {s : VM} (h : r = .error (.err .badValue) s) :
    Implements r none := ⟨_, s, h, .inr (.inr rfl)⟩

theorem implements_of_ok {vm' : VM} {d a : List Bytes} (h : r = .ok () vm')
    (hd : vm'.dataStack = d) (ha : vm'.altStack = a) : Implements r (some (d, a)) :=
  ⟨vm', h, hd, ha⟩

end Outcome

/-! ## Gas without wraps -/

section Gas

variable {vm : VM}

theorem applyCost_run_of_le {c : Int} (h₀ : 0 ≤ c) (h : c ≤ vm.runLimit)
    (hb : vm.runLimit ≤ maxInt64) :
    (applyCost c).run vm = .ok () { vm with runLimit := vm.runLimit - c } := by
  rw [applyCost_run, if_neg (by omega), int64_of_mem (by unfold minInt64; omega) (by omega)]

theorem pushDataStack_false_run_of_le {d : Bytes} (h : 8 + (d.length : Int) ≤ vm.runLimit)
    (hb : vm.runLimit ≤ maxInt64) :
    (pushDataStack d false).run vm = .ok () { vm with
      runLimit := vm.runLimit - (8 + d.length), dataStack := d :: vm.dataStack } := by
  rw [pushDataStack_run, if_neg Bool.false_ne_true, if_neg (by omega),
    int64_of_mem (by unfold minInt64; omega) (by omega)]

theorem pop_false_run_of_le {x : Bytes} {rest : List Bytes} (hs : vm.dataStack = x :: rest)
    (h₀ : 0 ≤ vm.runLimit) (hb : vm.runLimit + (8 + x.length) ≤ maxInt64) :
    (pop false).run vm = .ok x { vm with
      dataStack := rest, runLimit := vm.runLimit + (8 + x.length) } := by
  rw [pop_run_cons false hs, if_neg Bool.false_ne_true,
    int64_of_mem (by unfold minInt64; omega) hb]

end Gas

section Ops

variable {vm : VM}

theorem GasRoom.cost (hg : GasRoom vm) {c : Int} (hc : c ≤ 9) : c ≤ vm.runLimit := by
  have := hg.depth
  omega

/-! ## Moves between the stacks, and drops -/

theorem opToAltStack_implements (hg : GasRoom vm) :
    Implements (opToAltStack.run vm) (StackOp.toAltStack.reference vm.dataStack vm.altStack) := by
  unfold opToAltStack
  rw [run_bind_of_ok (applyCost_run_of_le (by decide) (hg.cost (by decide)) hg.bounded)]
  cases h : vm.dataStack with
  | nil => exact implements_underflow rfl
  | cons t rest => exact implements_of_ok rfl rfl rfl

theorem opFromAltStack_implements (hg : GasRoom vm) :
    Implements (opFromAltStack.run vm)
      (StackOp.fromAltStack.reference vm.dataStack vm.altStack) := by
  unfold opFromAltStack
  rw [run_bind_of_ok (applyCost_run_of_le (by decide) (hg.cost (by decide)) hg.bounded)]
  cases h : vm.altStack with
  | nil => exact ⟨_, _, rfl, .inr (.inl rfl)⟩
  | cons t rest => exact implements_of_ok rfl rfl rfl

theorem opDrop_implements (hg : GasRoom vm) :
    Implements (opDrop.run vm) (StackOp.drop.reference vm.dataStack vm.altStack) := by
  unfold opDrop
  rw [run_bind_of_ok (applyCost_run_of_le (by decide) (hg.cost (by decide)) hg.bounded)]
  cases h : vm.dataStack with
  | nil => exact implements_underflow rfl
  | cons x rest => exact implements_of_ok rfl rfl rfl

theorem op2Drop_implements (hg : GasRoom vm) :
    Implements (op2Drop.run vm) (StackOp.drop2.reference vm.dataStack vm.altStack) := by
  unfold op2Drop
  rw [run_bind_of_ok (applyCost_run_of_le (by decide) (hg.cost (by decide)) hg.bounded)]
  match h : vm.dataStack with
  | [] => exact implements_underflow rfl
  | [_] => exact implements_underflow rfl
  | x :: y :: rest => exact implements_of_ok rfl rfl rfl

theorem opNip_implements (hg : GasRoom vm) :
    Implements (opNip.run vm) (StackOp.nip.reference vm.dataStack vm.altStack) := by
  unfold opNip
  rw [run_bind_of_ok (applyCost_run_of_le (by decide) (hg.cost (by decide)) hg.bounded)]
  match h : vm.dataStack with
  | [] => exact implements_underflow rfl
  | [_] => exact implements_underflow rfl
  | x :: y :: rest => exact implements_of_ok rfl rfl rfl

/-! ## Rearrangements -/

theorem opSwap_implements (hg : GasRoom vm) :
    Implements (opSwap.run vm) (StackOp.swap.reference vm.dataStack vm.altStack) := by
  unfold opSwap
  rw [run_bind_of_ok (applyCost_run_of_le (by decide) (hg.cost (by decide)) hg.bounded)]
  match h : vm.dataStack with
  | [] => exact implements_underflow rfl
  | [_] => exact implements_underflow rfl
  | x :: y :: rest => exact implements_of_ok rfl rfl rfl

theorem op2Swap_implements (hg : GasRoom vm) :
    Implements (op2Swap.run vm) (StackOp.swap2.reference vm.dataStack vm.altStack) := by
  unfold op2Swap
  rw [run_bind_of_ok (applyCost_run_of_le (by decide) (hg.cost (by decide)) hg.bounded)]
  match h : vm.dataStack with
  | [] | [_] | [_, _] | [_, _, _] => exact implements_underflow rfl
  | w :: x :: y :: z :: rest => exact implements_of_ok rfl rfl rfl

theorem op2Rot_implements (hg : GasRoom vm) :
    Implements (op2Rot.run vm) (StackOp.rot2.reference vm.dataStack vm.altStack) := by
  unfold op2Rot
  rw [run_bind_of_ok (applyCost_run_of_le (by decide) (hg.cost (by decide)) hg.bounded)]
  match h : vm.dataStack with
  | [] | [_] | [_, _] | [_, _, _] | [_, _, _, _] | [_, _, _, _, _] =>
    exact implements_underflow rfl
  | u :: v :: w :: x :: y :: z :: rest => exact implements_of_ok rfl rfl rfl

/-- `rot (m + 1)` moves the item at depth `m` to the top. -/
theorem rot_run {m : Nat} (hl : m < vm.dataStack.length) :
    (rot (m + 1)).run vm = .ok ()
      { vm with dataStack := vm.dataStack.getD m [] :: vm.dataStack.eraseIdx m } := by
  have hk : vm.dataStack.length - 1 - ((vm.dataStack.length : Int) - (m + 1)).toNat = m := by
    omega
  unfold rot
  rw [if_neg (by omega)]
  simp only [run_bind, run_get]
  rw [if_neg (by omega), run_bind_of_ok (Iff.mpr dataStackAt_eq_ok ⟨by omega, by omega, rfl, rfl⟩),
    hk, List.eraseIdx_eq_take_drop_succ]
  rfl

theorem rot_run_short {m : Nat} (hl : vm.dataStack.length ≤ m) :
    (rot (m + 1)).run vm = .error (.err .dataStackUnderflow) vm := by
  unfold rot
  rw [if_neg (by omega)]
  simp only [run_bind, run_get]
  rw [if_pos (by omega)]
  rfl

theorem rot_run_bad {n : Int} (hn : n < 1) : (rot n).run vm = .error (.err .badValue) vm := by
  unfold rot
  rw [if_pos hn]
  rfl

theorem opRot_implements (hg : GasRoom vm) :
    Implements (opRot.run vm) (StackOp.rot.reference vm.dataStack vm.altStack) := by
  unfold opRot
  rw [run_bind_of_ok (applyCost_run_of_le (by decide) (hg.cost (by decide)) hg.bounded)]
  match h : vm.dataStack with
  | [] | [_] | [_, _] =>
    exact implements_underflow (rot_run_short (m := 2) (by simp))
  | x :: y :: z :: rest => exact implements_of_ok (rot_run (m := 2) (by simp)) rfl rfl

/-! ## Copies -/

/-- Go's `dataStack[len - (d + 1)]` is the item at depth `d`. -/
theorem dataStackAt_run_depth {k : Int} {d : Nat} (hk : k = vm.dataStack.length - (d + 1))
    (hd : d < vm.dataStack.length) :
    (dataStackAt k).run vm = .ok (vm.dataStack.getD d []) vm := by
  have h : vm.dataStack.length - 1 - k.toNat = d := by omega
  exact Iff.mpr dataStackAt_eq_ok ⟨by omega, by omega, by rw [h], rfl⟩

/-- One pass of `nDup`'s loop pushes the item at depth `n - 1` of the stack as it then is. -/
theorem nDupLoop_succ_run {n k : Nat} (hn : 0 < n) (hl : n ≤ vm.dataStack.length)
    (hc : 8 + ((vm.dataStack.getD (n - 1) []).length : Int) ≤ vm.runLimit)
    (hb : vm.runLimit ≤ maxInt64) :
    (nDupLoop n (k + 1)).run vm = (nDupLoop n k).run { vm with
      runLimit := vm.runLimit - (8 + (vm.dataStack.getD (n - 1) []).length)
      dataStack := vm.dataStack.getD (n - 1) [] :: vm.dataStack } := by
  have hk : vm.dataStack.length - 1 - ((vm.dataStack.length : Int) - n).toNat = n - 1 := by
    omega
  rw [nDupLoop.eq_2, run_bind_of_ok (Iff.mpr run_get_eq_ok ⟨rfl, rfl⟩)]
  dsimp only
  rw [run_bind_of_ok (Iff.mpr dataStackAt_eq_ok ⟨by omega, by omega, rfl, rfl⟩), hk,
    run_bind_of_ok (pushDataStack_false_run_of_le hc hb)]

theorem nDup_run {n : Nat} (hl : n ≤ vm.dataStack.length) (hc : n ≤ vm.runLimit)
    (hb : vm.runLimit ≤ maxInt64) :
    (nDup n).run vm = (nDupLoop n n).run { vm with runLimit := vm.runLimit - n } := by
  unfold nDup
  rw [run_bind_of_ok (applyCost_run_of_le (by omega) hc hb),
    run_bind_of_ok (Iff.mpr run_get_eq_ok ⟨rfl, rfl⟩), if_neg (by dsimp only; omega)]

theorem nDup_run_short {n : Nat} (hl : vm.dataStack.length < n) (hc : n ≤ vm.runLimit)
    (hb : vm.runLimit ≤ maxInt64) :
    (nDup n).run vm = .error (.err .dataStackUnderflow) { vm with runLimit := vm.runLimit - n } := by
  unfold nDup
  rw [run_bind_of_ok (applyCost_run_of_le (by omega) hc hb),
    run_bind_of_ok (Iff.mpr run_get_eq_ok ⟨rfl, rfl⟩), if_pos (by dsimp only; omega)]
  rfl

theorem opDup_implements (hg : GasRoom vm) :
    Implements (opDup.run vm) (StackOp.dup.reference vm.dataStack vm.altStack) := by
  have hb := hg.bounded
  unfold opDup
  match h : vm.dataStack with
  | [] => exact implements_underflow (nDup_run_short (by simp [h]) (hg.cost (by decide)) hb)
  | x :: rest =>
    have hx := hg.push x (by simp [h])
    rw [nDup_run (by simp [h]) (hg.cost (by decide)) hb,
      nDupLoop_succ_run (by decide) (by simp [h]) (by simp [h]; omega) (by dsimp only; omega),
      nDupLoop.eq_1]
    exact implements_of_ok rfl (by simp [h]) rfl

theorem op2Dup_implements (hg : GasRoom vm) :
    Implements (op2Dup.run vm) (StackOp.dup2.reference vm.dataStack vm.altStack) := by
  have hb := hg.bounded
  unfold op2Dup
  match h : vm.dataStack with
  | [] | [_] =>
    exact implements_underflow (nDup_run_short (by simp [h]) (hg.cost (by decide)) hb)
  | x :: y :: rest =>
    have hx := hg.push x (by simp [h])
    have hy := hg.push y (by simp [h])
    -- the first pass copies `y`, the second the `x` that is then at depth one
    rw [nDup_run (by simp [h]) (hg.cost (by decide)) hb,
      nDupLoop_succ_run (by decide) (by simp [h]) (by simp [h]; omega) (by dsimp only; omega),
      nDupLoop_succ_run (by decide) (by simp [h]) (by simp [h]; omega) (by dsimp only; omega),
      nDupLoop.eq_1]
    exact implements_of_ok rfl (by simp [h]) rfl

theorem op3Dup_implements (hg : GasRoom vm) :
    Implements (op3Dup.run vm) (StackOp.dup3.reference vm.dataStack vm.altStack) := by
  have hb := hg.bounded
  unfold op3Dup
  match h : vm.dataStack with
  | [] | [_] | [_, _] =>
    exact implements_underflow (nDup_run_short (by simp [h]) (hg.cost (by decide)) hb)
  | x :: y :: z :: rest =>
    have hx := hg.push x (by simp [h])
    have hy := hg.push y (by simp [h])
    have hz := hg.push z (by simp [h])
    rw [nDup_run (by simp [h]) (hg.cost (by decide)) hb,
      nDupLoop_succ_run (by decide) (by simp [h]) (by simp [h]; omega) (by dsimp only; omega),
      nDupLoop_succ_run (by decide) (by simp [h]) (by simp [h]; omega) (by dsimp only; omega),
      nDupLoop_succ_run (by decide) (by simp [h]) (by simp [h]; omega) (by dsimp only; omega),
      nDupLoop.eq_1]
    exact implements_of_ok rfl (by simp [h]) rfl

theorem opOver_implements (hg : GasRoom vm) :
    Implements (opOver.run vm) (StackOp.over.reference vm.dataStack vm.altStack) := by
  have hb := hg.bounded
  unfold opOver
  rw [run_bind_of_ok (applyCost_run_of_le (by decide) (hg.cost (by decide)) hb),
    run_bind_of_ok (Iff.mpr run_get_eq_ok ⟨rfl, rfl⟩)]
  match h : vm.dataStack with
  | [] | [_] => exact implements_underflow rfl
  | x :: y :: rest =>
    have hy := hg.push y (by simp [h])
    rw [if_neg (by simp), run_bind_of_ok (Iff.mpr run_get_eq_ok ⟨rfl, rfl⟩)]
    rw [run_bind_of_ok (dataStackAt_run_depth (d := 1) (by simp) (by simp)),
      pushDataStack_false_run_of_le (by simp; omega) (by dsimp only; omega)]
    exact implements_of_ok rfl rfl rfl

theorem op2Over_implements (hg : GasRoom vm) :
    Implements (op2Over.run vm) (StackOp.over2.reference vm.dataStack vm.altStack) := by
  have hb := hg.bounded
  unfold op2Over
  rw [run_bind_of_ok (applyCost_run_of_le (by decide) (hg.cost (by decide)) hb),
    run_bind_of_ok (Iff.mpr run_get_eq_ok ⟨rfl, rfl⟩)]
  match h : vm.dataStack with
  | [] | [_] | [_, _] | [_, _, _] => exact implements_underflow rfl
  | w :: x :: y :: z :: rest =>
    have hy := hg.push y (by simp [h])
    have hz := hg.push z (by simp [h])
    -- `z` is copied from depth three, then `y`, which the first copy has moved to depth three
    rw [if_neg (by simp), run_bind_of_ok (Iff.mpr run_get_eq_ok ⟨rfl, rfl⟩),
      run_bind_of_ok (dataStackAt_run_depth (d := 3) (by simp) (by simp)),
      run_bind_of_ok (pushDataStack_false_run_of_le (by simp; omega) (by dsimp only; omega)),
      run_bind_of_ok (Iff.mpr run_get_eq_ok ⟨rfl, rfl⟩),
      run_bind_of_ok (dataStackAt_run_depth (d := 3) (by simp) (by simp)),
      pushDataStack_false_run_of_le (by simp; omega) (by dsimp only; omega)]
    exact implements_of_ok rfl rfl rfl

theorem opTuck_implements (hg : GasRoom vm) :
    Implements (opTuck.run vm) (StackOp.tuck.reference vm.dataStack vm.altStack) := by
  have hb := hg.bounded
  unfold opTuck
  rw [run_bind_of_ok (applyCost_run_of_le (by decide) (hg.cost (by decide)) hb),
    run_bind_of_ok (Iff.mpr run_get_eq_ok ⟨rfl, rfl⟩)]
  match h : vm.dataStack with
  | [] | [_] => exact implements_underflow rfl
  | x :: y :: rest =>
    have hx := hg.push x (by simp [h])
    rw [if_neg (by simp), run_bind_of_ok (run_modify_eq_ok (u := ()).mpr rfl),
      run_bind_of_ok (pushDataStack_false_run_of_le (by simp; omega) (by dsimp only; omega))]
    exact implements_of_ok rfl rfl rfl

theorem opIfDup_implements (hg : GasRoom vm) :
    Implements (opIfDup.run vm) (StackOp.ifDup.reference vm.dataStack vm.altStack) := by
  have hb := hg.bounded
  unfold opIfDup
  rw [run_bind_of_ok (applyCost_run_of_le (by decide) (hg.cost (by decide)) hb)]
  match h : vm.dataStack with
  | [] => exact implements_underflow rfl
  | x :: rest =>
    have hx := hg.push x (by simp [h])
    rw [run_bind_of_ok (Iff.mpr top_eq_ok ⟨rest, rfl, rfl⟩)]
    cases hbx : asBool x with
    | true =>
      rw [if_pos rfl, pushDataStack_false_run_of_le (by dsimp only; omega) (by dsimp only; omega)]
      exact implements_of_ok rfl (by simp [hbx]) rfl
    | false => exact implements_of_ok rfl (by simp [hbx]) rfl

theorem opDepth_implements (hg : GasRoom vm) :
    Implements (opDepth.run vm) (StackOp.depth.reference vm.dataStack vm.altStack) := by
  have hb := hg.bounded
  have hd := hg.depth
  have hu : uint64 vm.dataStack.length = vm.dataStack.length := uint64_of_lt (by have := hg.short; omega)
  unfold opDepth pushBigInt
  rw [run_bind_of_ok (applyCost_run_of_le (by decide) (hg.cost (by decide)) hb),
    run_bind_of_ok (Iff.mpr run_get_eq_ok ⟨rfl, rfl⟩)]
  dsimp only
  rw [hu, pushDataStack_false_run_of_le (by dsimp only; omega) (by dsimp only; omega)]
  exact implements_of_ok rfl rfl rfl

end Ops

/-! ## `PICK` and `ROLL` -/

section PickRoll

variable {vm : VM} {x : Bytes} {rest : List Bytes} {n : Nat}

/-- The state once `PICK` or `ROLL` has paid and popped its number `x`. -/
def pickPopped (vm : VM) (x : Bytes) (rest : List Bytes) : VM :=
  { vm with runLimit := vm.runLimit - 2 + (8 + x.length), dataStack := rest }

theorem popBigInt_run_nil {deferred : Bool} (h : vm.dataStack = []) :
    (popBigInt deferred).run vm = .error (.err .dataStackUnderflow) vm := by
  unfold popBigInt
  rw [run_bind_of_error (pop_run_nil deferred h)]

/-- The payment and the pop, for numbers whose low 64 bits `m` make an offset `m + 1`. -/
theorem pickPrefix_run {k : Nat → VmM Unit} (hs : vm.dataStack = x :: rest)
    (hx : asBigInt x = .ok n) (hR : 2 ≤ vm.runLimit)
    (hb : vm.runLimit + (8 + x.length) ≤ maxInt64) :
    (do applyCost 2; let n ← popBigInt false; k n : VmM Unit).run vm =
      (k n).run (pickPopped vm x rest) := by
  have hpop : (popBigInt false).run { vm with runLimit := vm.runLimit - 2 } =
      .ok n (pickPopped vm x rest) :=
    Iff.mpr popBigInt_eq_ok ⟨x, pop_false_run_of_le hs (by dsimp only; omega)
      (by dsimp only; omega), hx⟩
  rw [run_bind_of_ok (applyCost_run_of_le (by decide) hR (by omega)), run_bind_of_ok hpop]

/-- `int64(m) + 1` does not overflow for `m < 2 ^ 63 - 1`. -/
theorem addInt64_uint64_one (hm : uint64 n < 2 ^ 63 - 1) :
    addInt64 (int64 (uint64 n)) 1 = some ((uint64 n : Int) + 1) := by
  rw [int64_natCast_of_lt (by omega),
    addInt64_eq_some (by unfold minInt64; omega) (by unfold maxInt64; omega)]

/-- `PICK` reads its number modulo `2 ^ 64`: below `2 ^ 63 - 1` that residue `m` is the depth it
copies from, or an underflow past the stack. -/
theorem opPick_run (hs : vm.dataStack = x :: rest) (hx : asBigInt x = .ok n)
    (hm : uint64 n < 2 ^ 63 - 1) (hR : 2 ≤ vm.runLimit)
    (hb : vm.runLimit + (8 + x.length) ≤ maxInt64) (hl : rest.length < 2 ^ 63) :
    opPick.run vm = if uint64 n < rest.length then
        (pushDataStack (rest.getD (uint64 n) []) false).run (pickPopped vm x rest)
      else .error (.err .dataStackUnderflow) (pickPopped vm x rest) := by
  unfold opPick
  rw [pickPrefix_run hs hx hR hb, addInt64_uint64_one hm]
  dsimp only
  rw [run_bind_of_ok (Iff.mpr run_get_eq_ok ⟨rfl, rfl⟩)]
  by_cases hlt : uint64 n < rest.length
  · have hk : int64 ((rest.length : Int) - ((uint64 n : Int) + 1)) =
        rest.length - ((uint64 n : Int) + 1) :=
      int64_of_mem (by unfold minInt64; omega) (by unfold maxInt64; omega)
    rw [if_pos hlt, if_neg (by dsimp [pickPopped]; omega),
      run_bind_of_ok (dataStackAt_run_depth (d := uint64 n) (by dsimp [pickPopped]; rw [hk])
        (by dsimp [pickPopped]; omega))]
    rfl
  · rw [if_neg hlt, if_pos (by dsimp [pickPopped]; omega)]
    rfl

/-- `ROLL` reads its number modulo `2 ^ 64`: below `2 ^ 63 - 1` that residue `m` is the depth it
moves to the top, or an underflow past the stack. -/
theorem opRoll_run (hs : vm.dataStack = x :: rest) (hx : asBigInt x = .ok n)
    (hm : uint64 n < 2 ^ 63 - 1) (hR : 2 ≤ vm.runLimit)
    (hb : vm.runLimit + (8 + x.length) ≤ maxInt64) :
    opRoll.run vm = if uint64 n < rest.length then
        .ok () { pickPopped vm x rest with
          dataStack := rest.getD (uint64 n) [] :: rest.eraseIdx (uint64 n) }
      else .error (.err .dataStackUnderflow) (pickPopped vm x rest) := by
  unfold opRoll
  rw [pickPrefix_run hs hx hR hb, addInt64_uint64_one hm]
  dsimp only
  by_cases hlt : uint64 n < rest.length
  · rw [if_pos hlt, rot_run hlt]
    rfl
  · rw [if_neg hlt, rot_run_short (by dsimp [pickPopped]; omega)]

/-- At `2 ^ 63 - 1` the offset overflows and both opcodes report a bad value. -/
theorem addInt64_max_one : addInt64 (int64 (uint64 (2 ^ 63 - 1))) 1 = none := by
  decide

theorem opPick_run_max (hs : vm.dataStack = x :: rest) (hx : asBigInt x = .ok (2 ^ 63 - 1))
    (hR : 2 ≤ vm.runLimit) (hb : vm.runLimit + (8 + x.length) ≤ maxInt64) :
    opPick.run vm = .error (.err .badValue) (pickPopped vm x rest) := by
  unfold opPick
  rw [pickPrefix_run hs hx hR hb, addInt64_max_one]
  rfl

theorem opRoll_run_max (hs : vm.dataStack = x :: rest) (hx : asBigInt x = .ok (2 ^ 63 - 1))
    (hR : 2 ≤ vm.runLimit) (hb : vm.runLimit + (8 + x.length) ≤ maxInt64) :
    opRoll.run vm = .error (.err .badValue) (pickPopped vm x rest) := by
  unfold opRoll
  rw [pickPrefix_run hs hx hR hb, addInt64_max_one]
  rfl

theorem opPick_implements (hg : GasRoom vm) (ha : StackOp.pick.ArgFits vm.dataStack) :
    Implements (opPick.run vm) (StackOp.pick.reference vm.dataStack vm.altStack) := by
  have hb := hg.bounded
  match h : vm.dataStack with
  | [] =>
    have hpop : (popBigInt false).run { vm with runLimit := vm.runLimit - 2 } =
        .error (.err .dataStackUnderflow) { vm with runLimit := vm.runLimit - 2 } :=
      popBigInt_run_nil h
    unfold opPick
    rw [run_bind_of_ok (applyCost_run_of_le (by decide) (hg.cost (by decide)) hb),
      run_bind_of_error hpop]
    exact implements_underflow rfl
  | nb :: rest =>
    rw [h] at ha
    obtain ⟨n, hn, hlt⟩ := ha
    have hR := hg.cost (c := 2) (by decide)
    have hnb := hg.refund nb (by simp [h])
    have hl : rest.length + 1 < 2 ^ 63 := by simpa [h] using hg.short
    have hu : uint64 n = n := uint64_of_lt (by omega)
    simp only [StackOp.reference, hn]
    by_cases hmax : n = 2 ^ 63 - 1
    · -- the offset overflows; the reference has nothing that deep either
      subst hmax
      rw [List.getElem?_eq_none (by omega)]
      exact implements_badValue (opPick_run_max h hn hR hnb)
    · rw [opPick_run h hn (by omega) hR hnb (by omega), hu]
      by_cases hd : n < rest.length
      · have hy := hg.push rest[n] (by simp [h, List.getElem_mem])
        rw [if_pos hd, ← List.getElem_eq_getD (h := hd) [], List.getElem?_eq_getElem hd,
          pushDataStack_false_run_of_le (by dsimp [pickPopped]; omega)
            (by dsimp [pickPopped]; omega)]
        exact implements_of_ok rfl rfl rfl
      · rw [if_neg hd, List.getElem?_eq_none (by omega)]
        exact implements_underflow rfl

theorem opRoll_implements (hg : GasRoom vm) (ha : StackOp.roll.ArgFits vm.dataStack) :
    Implements (opRoll.run vm) (StackOp.roll.reference vm.dataStack vm.altStack) := by
  have hb := hg.bounded
  match h : vm.dataStack with
  | [] =>
    have hpop : (popBigInt false).run { vm with runLimit := vm.runLimit - 2 } =
        .error (.err .dataStackUnderflow) { vm with runLimit := vm.runLimit - 2 } :=
      popBigInt_run_nil h
    unfold opRoll
    rw [run_bind_of_ok (applyCost_run_of_le (by decide) (hg.cost (by decide)) hb),
      run_bind_of_error hpop]
    exact implements_underflow rfl
  | nb :: rest =>
    rw [h] at ha
    obtain ⟨n, hn, hlt⟩ := ha
    have hR := hg.cost (c := 2) (by decide)
    have hnb := hg.refund nb (by simp [h])
    have hl : rest.length + 1 < 2 ^ 63 := by simpa [h] using hg.short
    have hu : uint64 n = n := uint64_of_lt (by omega)
    simp only [StackOp.reference, hn]
    by_cases hmax : n = 2 ^ 63 - 1
    · subst hmax
      rw [List.getElem?_eq_none (by omega)]
      exact implements_badValue (opRoll_run_max h hn hR hnb)
    · rw [opRoll_run h hn (by omega) hR hnb, hu]
      by_cases hd : n < rest.length
      · rw [if_pos hd, ← List.getElem_eq_getD (h := hd) [], List.getElem?_eq_getElem hd]
        exact implements_of_ok rfl rfl rfl
      · rw [if_neg hd, List.getElem?_eq_none (by omega)]
        exact implements_underflow rfl

end PickRoll

/-! ## Every stack opcode -/

/-- Every stack opcode leaves the reference stacks, or fails with an underflow or a bad value
exactly where the reference has none, given the gas for its pushes and, for `PICK` and `ROLL`, a
number below `2 ^ 63`. -/
theorem stackOps_implement_reference (op : StackOp) {vm : VM} (hg : GasRoom vm)
    (ha : op.ArgFits vm.dataStack) :
    Implements (op.exec.run vm) (op.reference vm.dataStack vm.altStack) := by
  cases op with
  | toAltStack => exact opToAltStack_implements hg
  | fromAltStack => exact opFromAltStack_implements hg
  | drop2 => exact op2Drop_implements hg
  | dup2 => exact op2Dup_implements hg
  | dup3 => exact op3Dup_implements hg
  | over2 => exact op2Over_implements hg
  | rot2 => exact op2Rot_implements hg
  | swap2 => exact op2Swap_implements hg
  | ifDup => exact opIfDup_implements hg
  | depth => exact opDepth_implements hg
  | drop => exact opDrop_implements hg
  | dup => exact opDup_implements hg
  | nip => exact opNip_implements hg
  | «over» => exact opOver_implements hg
  | pick => exact opPick_implements hg ha
  | roll => exact opRoll_implements hg ha
  | rot => exact opRot_implements hg
  | swap => exact opSwap_implements hg
  | tuck => exact opTuck_implements hg

/-- `2 PICK` on a stack of four items, with gas 100. -/
def pickTwoVM : VM :=
  { program := [], pc := 0, nextPC := 0, runLimit := 100, deferredCost := 0,
    expansionReserved := false, data := [], depth := 0,
    dataStack := [[2], [7], [8], [9]], altStack := [],
    altStackNil := true }

theorem stackOps_implement_reference_pickTwo :
    Implements (StackOp.pick.exec.run pickTwoVM)
      (StackOp.pick.reference pickTwoVM.dataStack pickTwoVM.altStack) :=
  stackOps_implement_reference .pick ⟨by decide, by decide, by decide, by decide, by decide⟩
    ⟨2, rfl, by decide⟩

/-- `2 ^ 64 PICK` and `2 ^ 64 ROLL` on one item, with gas 100: the number is past the stack, but
both succeed, as `0 PICK` and `0 ROLL`. -/
def pickHugeVM : VM :=
  { program := [], pc := 0, nextPC := 0, runLimit := 100, deferredCost := 0,
    expansionReserved := false, data := [], depth := 0,
    dataStack := [[0, 0, 0, 0, 0, 0, 0, 0, 1], [7]], altStack := [],
    altStackNil := true }

theorem pickRoll_two_pow_64 :
    GasRoom pickHugeVM ∧
      ¬ Implements (opPick.run pickHugeVM)
        (StackOp.pick.reference pickHugeVM.dataStack pickHugeVM.altStack) ∧
      ¬ Implements (opRoll.run pickHugeVM)
        (StackOp.roll.reference pickHugeVM.dataStack pickHugeVM.altStack) := by
  have hx : asBigInt [0, 0, 0, 0, 0, 0, 0, 0, 1] = .ok (2 ^ 64) := rfl
  have hm : uint64 (2 ^ 64) = 0 := by decide
  -- the reference has no item at depth `2 ^ 64` of a one-item stack
  have hpick : StackOp.pick.reference pickHugeVM.dataStack pickHugeVM.altStack = none := by
    decide
  have hroll : StackOp.roll.reference pickHugeVM.dataStack pickHugeVM.altStack = none := by
    decide
  have hpickRun : opPick.run pickHugeVM = _ := opPick_run rfl hx (by rw [hm]; decide) (by decide)
    (by decide) (by decide)
  have hrollRun : opRoll.run pickHugeVM = _ := opRoll_run rfl hx (by rw [hm]; decide) (by decide)
    (by decide)
  rw [hm, if_pos (by decide), pushDataStack_false_run_of_le (by decide) (by decide)] at hpickRun
  rw [hm, if_pos (by decide)] at hrollRun
  refine ⟨⟨by decide, by decide, by decide, by decide, by decide⟩, ?_, ?_⟩
  · rw [hpick, hpickRun]
    rintro ⟨e, s, he, -⟩
    cases he
  · rw [hroll, hrollRun]
    rintro ⟨e, s, he, -⟩
    cases he

end KuskCore.Vm
