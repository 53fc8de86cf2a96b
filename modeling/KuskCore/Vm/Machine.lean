import KuskCore.Vm.Ops
import KuskCore.StateRun

/-!
# The virtual machine's state and its primitive operations

`protocol/vm/vm.go` and `context.go`. A `VM` is the Go `virtualMachine` record. Go mutates it
through a pointer, and a function that returns an error keeps every mutation it made before; the
opcodes therefore run in `EStateM Exn VM`, whose error results carry the state. `Exn` separates an
error value the Go code returns (`err`), a Go runtime panic such as an index out of range (`panic`),
and the end of the model's fuel (`outOfFuel`).

Both stacks are lists with the top item first: Go's `stack[len(stack)-1]` is the head. Go's
`altStack` is `nil` until something is pushed onto it, and stays a non-`nil` slice after it empties
again; `altStackNil` keeps that apart, since `CheckOutput` compares the slice with `nil`.

Gas is an `int64` in Go: `applyCost`, `pop` and `deferCost` wrap their sums with `GoInt.int64`.
Stack costs add slice lengths, which Go's memory bounds far below `2 ^ 63`, so they are not wrapped.

Beside each primitive stands its specification as a run: the whole result for the gas and stack
primitives, and for the rest when and how they end with `.ok`. Proofs about opcodes cite these and
never unfold a primitive.
-/

namespace KuskCore.Vm

open GoInt

/-- The hash and signature functions the opcodes call: `crypto/sha256`, `x/crypto/sha3`,
`crypto.Ripemd160` and `ed25519.Verify(publicKey, message, sig)`. -/
structure Crypto where
  sha256 : Bytes → Bytes
  sha3 : Bytes → Bytes
  ripemd160 : Bytes → Bytes
  ed25519Verify : Bytes → Bytes → Bytes → Bool

/-- How a run of Go code ends early. -/
inductive Exn where
  | err (e : VMError)
  | panic
  | outOfFuel
  deriving DecidableEq, Repr

/-- `Context`. A nil pointer is `none`. `TxSigHash` is a memoised hash, kept as its value;
`CheckOutput` takes index, amount, asset, VM version, code, state data and the expansion flag; the
state data is a Go slice, `none` when it is `nil`. It returns an error or, where it dereferences a
nil pointer, panics. -/
structure Context where
  vmVersion : Nat
  code : Bytes
  stateData : List Bytes
  arguments : List Bytes
  entryID : Bytes
  txVersion : Option Nat
  blockHeight : Option Nat
  assetID : Option Bytes
  amount : Option Nat
  destPos : Option Nat
  spentOutputID : Option Bytes
  txSigHash : Option Bytes
  checkOutput :
    Option (Nat → Nat → Bytes → Nat → Bytes → Option (List Bytes) → Bool → Except Exn Bool)

/-- `virtualMachine`, without its shared `context`, which is passed alongside. -/
structure VM where
  program : Bytes
  pc : Nat
  nextPC : Nat
  runLimit : Int
  deferredCost : Int
  expansionReserved : Bool
  data : Bytes
  depth : Nat
  dataStack : List Bytes
  altStack : List Bytes
  altStackNil : Bool
  deriving DecidableEq, Repr

/-- `vm.altStack` as Go holds it: bottom item first, and `nil` until the first push onto it. -/
def VM.altStackValue (vm : VM) : Option (List Bytes) :=
  if vm.altStackNil then none else some vm.altStack.reverse

/-- Go code over a `virtualMachine` pointer. -/
abbrev VmM := EStateM Exn VM

/-- Returning a Go error. -/
def throwErr {α : Type} (e : VMError) : VmM α := throw (.err e)

/-- Returning the error of a fallible pure function, or its value. -/
def liftErr {α : Type} : Except VMError α → VmM α
  | .ok a => pure a
  | .error e => throwErr e

section Spec

variable {vm vm' : VM}

@[simp] theorem run_throwErr {α : Type} (e : VMError) :
    (throwErr e : VmM α).run vm = .error (.err e) vm := rfl

theorem throwErr_ne_ok {α : Type} {e : VMError} {a : α} :
    ¬ (throwErr e : VmM α).run vm = .ok a vm' := EStateM.run_throw_ne_ok

theorem liftErr_eq_ok {α : Type} {x : Except VMError α} {a : α} :
    (liftErr x).run vm = .ok a vm' ↔ x = .ok a ∧ vm = vm' := by
  cases x with
  | ok b => simp [liftErr]
  | error e => simp [liftErr]

end Spec

/-! ## Gas -/

/-- `applyCost`: a positive cost decreases the run limit, a negative one increases it. -/
def applyCost (n : Int) : VmM Unit := do
  let vm ← get
  if n > vm.runLimit then
    set { vm with runLimit := 0 }
    throwErr .runLimitExceeded
  else set { vm with runLimit := int64 (vm.runLimit - n) }

/-- `deferCost`. -/
def deferCost (n : Int) : VmM Unit :=
  modify fun vm => { vm with deferredCost := int64 (vm.deferredCost + n) }

section Spec

variable {vm vm' : VM}

theorem applyCost_run (n : Int) : (applyCost n).run vm =
    if n > vm.runLimit then .error (.err .runLimitExceeded) { vm with runLimit := 0 }
    else .ok () { vm with runLimit := int64 (vm.runLimit - n) } := by
  unfold applyCost
  simp only [EStateM.run_bind, EStateM.run_get]
  split <;> rfl

theorem applyCost_eq_ok {n : Int} {u : Unit} :
    (applyCost n).run vm = .ok u vm' ↔
      n ≤ vm.runLimit ∧ vm' = { vm with runLimit := int64 (vm.runLimit - n) } := by
  rw [applyCost_run]
  by_cases h : n > vm.runLimit
  · simp only [h, if_true, reduceCtorEq, false_iff, not_and]
    omega
  · simp only [h, if_false, EStateM.Result.ok.injEq, true_and]
    constructor
    · intro e
      exact ⟨by omega, e.symm⟩
    · intro e
      exact e.2.symm

theorem deferCost_run (n : Int) :
    (deferCost n).run vm = .ok () { vm with deferredCost := int64 (vm.deferredCost + n) } := rfl

theorem deferCost_eq_ok {n : Int} {u : Unit} :
    (deferCost n).run vm = .ok u vm' ↔
      vm' = { vm with deferredCost := int64 (vm.deferredCost + n) } := by
  rw [deferCost_run]
  simp only [EStateM.Result.ok.injEq, true_and]
  exact eq_comm

end Spec

/-- `stackCost`: eight per item plus the item's length. -/
def stackCost (stack : List Bytes) : Int := 8 * stack.length + (stack.map List.length).sum

@[simp] theorem stackCost_nil : stackCost [] = 0 := rfl

@[simp] theorem stackCost_cons (x : Bytes) (xs : List Bytes) :
    stackCost (x :: xs) = 8 + x.length + stackCost xs := by
  simp only [stackCost, List.length_cons, List.map_cons, List.sum_cons]
  omega

theorem stackCost_nonneg (xs : List Bytes) : 0 ≤ stackCost xs := by
  unfold stackCost
  omega

/-- Every item costs at least its 8-byte header. -/
theorem length_le_stackCost (xs : List Bytes) : 8 * (xs.length : Int) ≤ stackCost xs := by
  induction xs with
  | nil => simp
  | cons x xs ih =>
    rw [stackCost_cons, List.length_cons]
    omega

theorem stackCost_append (xs ys : List Bytes) :
    stackCost (xs ++ ys) = stackCost xs + stackCost ys := by
  induction xs with
  | nil => simp
  | cons x xs ih =>
    simp only [List.cons_append, stackCost_cons, ih]
    omega

@[simp] theorem stackCost_reverse (xs : List Bytes) : stackCost xs.reverse = stackCost xs := by
  induction xs with
  | nil => rfl
  | cons x xs ih =>
    simp only [List.reverse_cons, stackCost_append, ih, stackCost_cons, stackCost_nil]
    omega

/-! ## Stacks -/

/-- `pushDataStack`. -/
def pushDataStack (data : Bytes) (deferred : Bool) : VmM Unit := do
  let cost : Int := 8 + data.length
  if deferred then deferCost cost else applyCost cost
  modify fun vm => { vm with dataStack := data :: vm.dataStack }

/-- `pushAltStack`. -/
def pushAltStack (data : Bytes) (deferred : Bool) : VmM Unit := do
  let cost : Int := 8 + data.length
  if deferred then deferCost cost else applyCost cost
  modify fun vm => { vm with altStack := data :: vm.altStack, altStackNil := false }

section Spec

variable {vm vm' : VM}

theorem pushDataStack_run (d : Bytes) (deferred : Bool) : (pushDataStack d deferred).run vm =
    if deferred then
      .ok () { vm with
        deferredCost := int64 (vm.deferredCost + (8 + d.length))
        dataStack := d :: vm.dataStack }
    else if 8 + (d.length : Int) > vm.runLimit then
      .error (.err .runLimitExceeded) { vm with runLimit := 0 }
    else
      .ok () { vm with
        runLimit := int64 (vm.runLimit - (8 + d.length))
        dataStack := d :: vm.dataStack } := by
  unfold pushDataStack
  cases deferred
  · simp only [EStateM.run_bind, applyCost_run, Bool.false_eq_true, if_false]
    by_cases h : 8 + (d.length : Int) > vm.runLimit
    · simp only [h, if_true]
    · simp only [h, if_false]
      rfl
  · rfl

/-- A deferred push always succeeds. -/
theorem pushDataStack_true_eq_ok {d : Bytes} {u : Unit} :
    (pushDataStack d true).run vm = .ok u vm' ↔
      vm' = { vm with
        deferredCost := int64 (vm.deferredCost + (8 + d.length))
        dataStack := d :: vm.dataStack } := by
  rw [pushDataStack_run, if_pos rfl]
  simp only [EStateM.Result.ok.injEq, true_and]
  exact eq_comm

theorem pushDataStack_false_eq_ok {d : Bytes} {u : Unit} :
    (pushDataStack d false).run vm = .ok u vm' ↔
      8 + (d.length : Int) ≤ vm.runLimit ∧
        vm' = { vm with
          runLimit := int64 (vm.runLimit - (8 + d.length))
          dataStack := d :: vm.dataStack } := by
  rw [pushDataStack_run, if_neg Bool.false_ne_true]
  by_cases h : 8 + (d.length : Int) > vm.runLimit
  · simp only [h, if_true, reduceCtorEq, false_iff, not_and]
    omega
  · simp only [h, if_false, EStateM.Result.ok.injEq, true_and]
    constructor
    · intro e
      exact ⟨by omega, e.symm⟩
    · intro e
      exact e.2.symm

theorem pushAltStack_false_eq_ok {d : Bytes} {u : Unit} :
    (pushAltStack d false).run vm = .ok u vm' ↔
      8 + (d.length : Int) ≤ vm.runLimit ∧
        vm' = { vm with
          runLimit := int64 (vm.runLimit - (8 + d.length))
          altStack := d :: vm.altStack, altStackNil := false } := by
  unfold pushAltStack
  simp only [Bool.false_eq_true, if_false, EStateM.run_bind_eq_ok, applyCost_eq_ok,
    EStateM.run_modify_eq_ok]
  constructor
  · rintro ⟨_, t, ⟨h, rfl⟩, rfl⟩
    exact ⟨h, rfl⟩
  · rintro ⟨h, rfl⟩
    exact ⟨(), _, ⟨h, rfl⟩, rfl⟩

end Spec

/-- `pushBool`. -/
def pushBool (b : Bool) (deferred : Bool) : VmM Unit := pushDataStack (boolBytes b) deferred

/-- `pushBigInt`. -/
def pushBigInt (n : Nat) (deferred : Bool) : VmM Unit := pushDataStack (bigIntBytes n) deferred

/-- `pop`: the item's cost comes back at once, or is deferred as a negative cost. -/
def pop (deferred : Bool) : VmM Bytes := do
  let vm ← get
  match vm.dataStack with
  | [] => throwErr .dataStackUnderflow
  | res :: rest =>
    set { vm with dataStack := rest }
    let cost : Int := 8 + res.length
    if deferred then deferCost (-cost)
    else modify fun vm => { vm with runLimit := int64 (vm.runLimit + cost) }
    pure res

section Spec

variable {vm vm' : VM}

theorem pop_run_nil (deferred : Bool) (h : vm.dataStack = []) :
    (pop deferred).run vm = .error (.err .dataStackUnderflow) vm := by
  unfold pop
  simp only [EStateM.run_bind, EStateM.run_get, h]
  rfl

theorem pop_run_cons (deferred : Bool) {x : Bytes} {rest : List Bytes}
    (h : vm.dataStack = x :: rest) : (pop deferred).run vm =
      .ok x (if deferred then
        { vm with dataStack := rest, deferredCost := int64 (vm.deferredCost + -(8 + x.length)) }
      else { vm with dataStack := rest, runLimit := int64 (vm.runLimit + (8 + x.length)) }) := by
  unfold pop
  simp only [EStateM.run_bind, EStateM.run_get, h]
  cases deferred <;> rfl

theorem pop_true_eq_ok {x : Bytes} :
    (pop true).run vm = .ok x vm' ↔ ∃ rest, vm.dataStack = x :: rest ∧
      vm' = { vm with
        dataStack := rest
        deferredCost := int64 (vm.deferredCost + -(8 + x.length)) } := by
  cases h : vm.dataStack with
  | nil => simp [pop_run_nil true h]
  | cons y rest =>
    rw [pop_run_cons true h, if_pos rfl]
    constructor
    · intro e
      cases e
      exact ⟨rest, rfl, rfl⟩
    · rintro ⟨r, hr, rfl⟩
      obtain ⟨rfl, rfl⟩ := List.cons_eq_cons.mp hr
      rfl

theorem pop_false_eq_ok {x : Bytes} :
    (pop false).run vm = .ok x vm' ↔ ∃ rest, vm.dataStack = x :: rest ∧
      vm' = { vm with dataStack := rest, runLimit := int64 (vm.runLimit + (8 + x.length)) } := by
  cases h : vm.dataStack with
  | nil => simp [pop_run_nil false h]
  | cons y rest =>
    rw [pop_run_cons false h, if_neg Bool.false_ne_true]
    constructor
    · intro e
      cases e
      exact ⟨rest, rfl, rfl⟩
    · rintro ⟨r, hr, rfl⟩
      obtain ⟨rfl, rfl⟩ := List.cons_eq_cons.mp hr
      rfl

end Spec

/-- `popBigInt`. -/
def popBigInt (deferred : Bool) : VmM Nat := do
  let bytes ← pop deferred
  liftErr (asBigInt bytes)

/-- `top`. -/
def top : VmM Bytes := do
  match (← get).dataStack with
  | [] => throwErr .dataStackUnderflow
  | res :: _ => pure res

/-- Go's `vm.dataStack[k]`, counting from the bottom; out of range it panics. -/
def dataStackAt (k : Int) : VmM Bytes := do
  let s := (← get).dataStack
  if 0 ≤ k ∧ k < s.length then pure (s.getD (s.length - 1 - k.toNat) []) else throw .panic

section Spec

variable {vm vm' : VM}

theorem popBigInt_eq_ok {deferred : Bool} {n : Nat} :
    (popBigInt deferred).run vm = .ok n vm' ↔
      ∃ x, (pop deferred).run vm = .ok x vm' ∧ asBigInt x = .ok n := by
  unfold popBigInt
  simp only [EStateM.run_bind_eq_ok, liftErr_eq_ok]
  constructor
  · rintro ⟨x, t, hx, hn, rfl⟩
    exact ⟨x, hx, hn⟩
  · rintro ⟨x, hx, hn⟩
    exact ⟨x, vm', hx, hn, rfl⟩

theorem top_eq_ok {x : Bytes} :
    top.run vm = .ok x vm' ↔ ∃ rest, vm.dataStack = x :: rest ∧ vm = vm' := by
  unfold top
  simp only [EStateM.run_bind, EStateM.run_get]
  cases h : vm.dataStack with
  | nil => simp
  | cons y rest => simp

theorem dataStackAt_eq_ok {k : Int} {x : Bytes} :
    (dataStackAt k).run vm = .ok x vm' ↔
      0 ≤ k ∧ k < vm.dataStack.length ∧
        x = vm.dataStack.getD (vm.dataStack.length - 1 - k.toNat) [] ∧ vm = vm' := by
  unfold dataStackAt
  simp only [EStateM.run_bind_eq_ok, EStateM.run_get_eq_ok, EStateM.run_ite_eq_ok,
    EStateM.run_pure_eq_ok, EStateM.run_throw_ne_ok, and_false, or_false]
  constructor
  · rintro ⟨_, _, ⟨rfl, rfl⟩, ⟨h₀, h₁⟩, rfl, rfl⟩
    exact ⟨h₀, h₁, rfl, rfl⟩
  · rintro ⟨h₀, h₁, rfl, rfl⟩
    exact ⟨vm, vm, ⟨rfl, rfl⟩, ⟨h₀, h₁⟩, rfl, rfl⟩

/-- `dataStackAt` panics exactly out of range, and changes nothing either way. -/
theorem dataStackAt_run_panic {k : Int} (h : ¬ (0 ≤ k ∧ k < vm.dataStack.length)) :
    (dataStackAt k).run vm = .error .panic vm := by
  unfold dataStackAt
  simp only [EStateM.run_bind, EStateM.run_get, h, if_false]
  rfl

end Spec

/-- `falseResult`: the data stack is empty or its top item is false. -/
def falseResult (vm : VM) : Bool :=
  match vm.dataStack with
  | [] => true
  | t :: _ => !asBool t

end KuskCore.Vm
