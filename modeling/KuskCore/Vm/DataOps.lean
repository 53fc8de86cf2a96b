import KuskCore.Vm.Machine

/-!
# Splice, bitwise and numeric opcodes

`protocol/vm/splice.go`, `bitwise.go` and `numeric.go`. The numeric opcodes compute on
`uint256.Int`: sums, differences, products and left shifts are taken modulo `2 ^ 256` as the
library does, and a result whose top bit is set (`Sign() < 0`) is a range error.
-/

namespace KuskCore.Vm

open GoInt KuskCore.Checked

/-! ## Splice -/

/-- `opCat`. -/
def opCat : VmM Unit := do
  applyCost 4
  let b ← pop true
  let a ← pop true
  let lens : Int := a.length + b.length
  applyCost lens
  deferCost (-lens)
  pushDataStack (a ++ b) true

/-- `opSubstr`. -/
def opSubstr : VmM Unit := do
  applyCost 4
  let size ← popBigInt true >>= fun n => liftErr (bigIntInt64 n)
  applyCost size
  deferCost (-size)
  let offset ← popBigInt true >>= fun n => liftErr (bigIntInt64 n)
  let str ← pop true
  match addInt64 offset size with
  | none => throwErr .badValue
  | some e =>
    if e > str.length then throwErr .badValue
    else pushDataStack (slice str offset.toNat e.toNat) true

/-- `opLeft`. -/
def opLeft : VmM Unit := do
  applyCost 4
  let size ← popBigInt true >>= fun n => liftErr (bigIntInt64 n)
  applyCost size
  deferCost (-size)
  let str ← pop true
  if size > str.length then throwErr .badValue
  else pushDataStack (str.take size.toNat) true

/-- `opRight`. -/
def opRight : VmM Unit := do
  applyCost 4
  let size ← popBigInt true >>= fun n => liftErr (bigIntInt64 n)
  applyCost size
  deferCost (-size)
  let str ← pop true
  let lstr : Int := str.length
  if size > lstr then throwErr .badValue
  else pushDataStack (str.drop (lstr - size).toNat) true

/-- `opSize`. -/
def opSize : VmM Unit := do
  applyCost 1
  let str ← top
  pushBigInt (uint64 str.length) true

/-- `opCatpushdata`. -/
def opCatpushdata : VmM Unit := do
  applyCost 4
  let b ← pop true
  let a ← pop true
  let lens : Int := a.length + b.length
  applyCost lens
  deferCost (-lens)
  pushDataStack (a ++ pushDataBytes b) true

/-! ## Bitwise -/

/-- `opInvert`: the top item is replaced in place. -/
def opInvert : VmM Unit := do
  applyCost 1
  let t ← top
  applyCost t.length
  modify fun vm => { vm with dataStack := t.map (~~~ ·) :: vm.dataStack.drop 1 }

/-- `opAnd`. -/
def opAnd : VmM Unit := do
  applyCost 1
  let b ← pop true
  let a ← pop true
  let m := min a.length b.length
  applyCost m
  pushDataStack ((List.range m).map fun i => a.getD i 0 &&& b.getD i 0) true

/-- `doOr`: `OR`, or `XOR` when `xor` is set, over the longer length with zero padding. -/
def doOr (xor : Bool) : VmM Unit := do
  applyCost 1
  let b ← pop true
  let a ← pop true
  let m := max a.length b.length
  applyCost m
  pushDataStack ((List.range m).map fun i =>
    if xor then a.getD i 0 ^^^ b.getD i 0 else a.getD i 0 ||| b.getD i 0) true

/-- `opOr`. -/
def opOr : VmM Unit := doOr false

/-- `opXor`. -/
def opXor : VmM Unit := doOr true

/-- `doEqual`. -/
def doEqual : VmM Bool := do
  applyCost 1
  let b ← pop true
  let a ← pop true
  applyCost (min a.length b.length)
  pure (a == b)

/-- `opEqual`. -/
def opEqual : VmM Unit := do
  let res ← doEqual
  pushBool res true

/-- `opEqualVerify`. -/
def opEqualVerify : VmM Unit := do
  let res ← doEqual
  if res then pure () else throwErr .verifyFailed

theorem opEqualVerify_eq_ok {vm vm' : VM} {u : Unit} :
    opEqualVerify.run vm = .ok u vm' ↔ ∃ a rest, vm.dataStack = a :: a :: rest ∧
      1 ≤ vm.runLimit ∧ (a.length : Int) ≤ int64 (vm.runLimit - 1) ∧
      vm' = { vm with
        runLimit := int64 (int64 (vm.runLimit - 1) - a.length)
        deferredCost := int64 (int64 (vm.deferredCost + -(8 + a.length)) + -(8 + a.length))
        dataStack := rest } := by
  unfold opEqualVerify doEqual
  rcases h : vm.dataStack with _ | ⟨b, _ | ⟨a, rest⟩⟩
  · simp [-EStateM.run_bind, EStateM.run_bind_eq_ok, applyCost_eq_ok, pop_true_eq_ok, h]
  · simp [-EStateM.run_bind, EStateM.run_bind_eq_ok, applyCost_eq_ok, pop_true_eq_ok, h]
  · simp only [bind_pure_comp, bind_assoc, bind_map_left, beq_iff_eq, EStateM.run_bind_eq_ok,
      applyCost_eq_ok, h, pop_true_eq_ok, EStateM.run_ite_eq_ok, EStateM.run_pure,
      EStateM.Result.ok.injEq, true_and, run_throwErr, reduceCtorEq, and_false, or_false,
      and_assoc, exists_and_left, exists_eq_left, exists_const, List.cons.injEq, exists_eq_left']
    constructor
    · rintro ⟨h₁, h₂, rfl, rfl⟩
      exact ⟨rfl, h₁, by simpa using h₂, by simp⟩
    · rintro ⟨rfl, h₁, h₂, rfl⟩
      exact ⟨h₁, by simpa using h₂, rfl, by simp⟩

/-! ## Numeric -/

/-- `Sign() < 0` of a `uint256.Int`: its top bit is set. -/
def negative (z : Nat) : Bool := sign z < 0

/-- `op1Add`. -/
def op1Add : VmM Unit := do
  applyCost 2
  let n ← popBigInt true
  let num := (n + 1) % 2 ^ 256
  if negative num then throwErr .range else pushBigInt num true

/-- `op1Sub`. -/
def op1Sub : VmM Unit := do
  applyCost 2
  let n ← popBigInt true
  let num := (n + 2 ^ 256 - 1) % 2 ^ 256
  if negative num then throwErr .range else pushBigInt num true

/-- `op2Mul`. -/
def op2Mul : VmM Unit := do
  applyCost 2
  let n ← popBigInt true
  let num := n * 2 % 2 ^ 256
  if negative num then throwErr .range else pushBigInt num true

/-- `op2Div`. -/
def op2Div : VmM Unit := do
  applyCost 2
  let n ← popBigInt true
  pushBigInt (n >>> 1) true

/-- `opNot`. -/
def opNot : VmM Unit := do
  applyCost 2
  let n ← popBigInt true
  pushBool (n == 0) true

theorem opNot_eq_ok {vm vm' : VM} {u : Unit} :
    opNot.run vm = .ok u vm' ↔ ∃ x rest n, vm.dataStack = x :: rest ∧ asBigInt x = .ok n ∧
      2 ≤ vm.runLimit ∧
      vm' = { vm with
        runLimit := int64 (vm.runLimit - 2)
        deferredCost := int64 (int64 (vm.deferredCost + -(8 + x.length)) +
          (8 + (boolBytes (n == 0)).length))
        dataStack := boolBytes (n == 0) :: rest } := by
  unfold opNot pushBool
  simp only [EStateM.run_bind_eq_ok, applyCost_eq_ok, popBigInt_eq_ok, pop_true_eq_ok,
    pushDataStack_true_eq_ok]
  constructor
  · rintro ⟨_, _, ⟨h₂, rfl⟩, n, _, ⟨x, ⟨rest, hs, rfl⟩, hn⟩, rfl⟩
    exact ⟨x, rest, n, hs, hn, h₂, rfl⟩
  · rintro ⟨x, rest, n, hs, hn, h₂, rfl⟩
    exact ⟨(), _, ⟨h₂, rfl⟩, n, _, ⟨x, ⟨rest, hs, rfl⟩, hn⟩, rfl⟩

/-- `op0NotEqual`. -/
def op0NotEqual : VmM Unit := do
  applyCost 2
  let n ← popBigInt true
  pushBool (n != 0) true

/-- `opAdd`. -/
def opAdd : VmM Unit := do
  applyCost 2
  let y ← popBigInt true
  let x ← popBigInt true
  let x := (x + y) % 2 ^ 256
  if negative x then throwErr .range else pushBigInt x true

/-- `opSub`. -/
def opSub : VmM Unit := do
  applyCost 2
  let y ← popBigInt true
  let x ← popBigInt true
  let x := (x + 2 ^ 256 - y) % 2 ^ 256
  if negative x then throwErr .range else pushBigInt x true

/-- `opMul`: `MulOverflow` reports a product of `2 ^ 256` or more. -/
def opMul : VmM Unit := do
  applyCost 8
  let y ← popBigInt true
  let x ← popBigInt true
  let overflow := decide (2 ^ 256 ≤ x * y)
  let x := x * y % 2 ^ 256
  if overflow || negative x then throwErr .range else pushBigInt x true

/-- `opDiv`. -/
def opDiv : VmM Unit := do
  applyCost 8
  let y ← popBigInt true
  let x ← popBigInt true
  if y = 0 then throwErr .divZero else pushBigInt (x / y) true

/-- `opMod`. -/
def opMod : VmM Unit := do
  applyCost 8
  let y ← popBigInt true
  let x ← popBigInt true
  if y = 0 then throwErr .divZero else pushBigInt (x % y) true

/-- `opLshift`: `Lsh` for a shift below 256, `Clear` otherwise. -/
def opLshift : VmM Unit := do
  applyCost 8
  let y ← popBigInt true
  let x ← popBigInt true
  let x := if y < 256 then x <<< y % 2 ^ 256 else 0
  if negative x then throwErr .range else pushBigInt x true

/-- `opRshift`. -/
def opRshift : VmM Unit := do
  applyCost 8
  let y ← popBigInt true
  let x ← popBigInt true
  pushBigInt (if y < 256 then x >>> y else 0) true

/-- `opBoolAnd`. -/
def opBoolAnd : VmM Unit := do
  applyCost 2
  let b ← pop true
  let a ← pop true
  pushBool (asBool a && asBool b) true

/-- `opBoolOr`. -/
def opBoolOr : VmM Unit := do
  applyCost 2
  let b ← pop true
  let a ← pop true
  pushBool (asBool a || asBool b) true

/-- The comparisons of `doNumCompare`. -/
inductive NumCmp where
  | cmpLess | cmpLessEqual | cmpGreater | cmpGreaterEqual | cmpEqual | cmpNotEqual
  deriving DecidableEq, Repr

/-- The `switch` of `doNumCompare`. -/
def NumCmp.eval : NumCmp → Nat → Nat → Bool
  | .cmpLess, x, y => x < y
  | .cmpLessEqual, x, y => x ≤ y
  | .cmpGreater, x, y => x > y
  | .cmpGreaterEqual, x, y => x ≥ y
  | .cmpEqual, x, y => x == y
  | .cmpNotEqual, x, y => x != y

/-- `doNumCompare`. -/
def doNumCompare (op : NumCmp) : VmM Unit := do
  applyCost 2
  let y ← popBigInt true
  let x ← popBigInt true
  pushBool (op.eval x y) true

/-- `opNumEqualVerify`. -/
def opNumEqualVerify : VmM Unit := do
  applyCost 2
  let y ← popBigInt true
  let x ← popBigInt true
  if x = y then pure () else throwErr .verifyFailed

/-- `opMin`. -/
def opMin : VmM Unit := do
  applyCost 2
  let y ← popBigInt true
  let x ← popBigInt true
  if x > y then pushBigInt y true else pushBigInt x true

/-- `opMax`. -/
def opMax : VmM Unit := do
  applyCost 2
  let y ← popBigInt true
  let x ← popBigInt true
  if x < y then pushBigInt y true else pushBigInt x true

/-- `opWithin`. -/
def opWithin : VmM Unit := do
  applyCost 4
  let max ← popBigInt true
  let min ← popBigInt true
  let x ← popBigInt true
  pushBool (min ≤ x && x < max) true

end KuskCore.Vm
