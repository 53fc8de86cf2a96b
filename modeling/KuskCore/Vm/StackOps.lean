import KuskCore.Vm.Machine

/-!
# Stack opcodes

`protocol/vm/stack.go`. With the top item first, Go's slice `s[len(s)-k:]` is `s.take k` and
`s[:len(s)-k]` is `s.drop k`; the rearranging opcodes are written with these. `TOALTSTACK`,
`FROMALTSTACK`, `2ROT`, `2SWAP`, `ROT`, `ROLL` and `SWAP` move items without memory accounting, as
the source does; `NIP` and `TUCK` take items off without it and put some back.
-/

namespace KuskCore.Vm

open GoInt KuskCore.Checked

/-- `opToAltStack`. -/
def opToAltStack : VmM Unit := do
  applyCost 2
  let vm ← get
  match vm.dataStack with
  | [] => throwErr .dataStackUnderflow
  | t :: rest =>
    set { vm with altStack := t :: vm.altStack, altStackNil := false, dataStack := rest }

/-- `opFromAltStack`. -/
def opFromAltStack : VmM Unit := do
  applyCost 2
  let vm ← get
  match vm.altStack with
  | [] => throwErr .altStackUnderflow
  | t :: rest => set { vm with dataStack := t :: vm.dataStack, altStack := rest }

/-- `op2Drop`. -/
def op2Drop : VmM Unit := do
  applyCost 2
  discard (pop false)
  discard (pop false)

/-- The loop of `nDup`: each pass pushes `vm.dataStack[len(vm.dataStack)-n]` of the stack as it
is then. -/
def nDupLoop (n : Nat) : Nat → VmM Unit
  | 0 => pure ()
  | k + 1 => do
    let s := (← get).dataStack
    let item ← dataStackAt (s.length - n)
    pushDataStack item false
    nDupLoop n k

/-- `nDup`. -/
def nDup (n : Nat) : VmM Unit := do
  applyCost n
  if (← get).dataStack.length < n then throwErr .dataStackUnderflow
  else nDupLoop n n

/-- `op2Dup`. -/
def op2Dup : VmM Unit := nDup 2

/-- `op3Dup`. -/
def op3Dup : VmM Unit := nDup 3

/-- `op2Over`. -/
def op2Over : VmM Unit := do
  applyCost 2
  if (← get).dataStack.length < 4 then throwErr .dataStackUnderflow
  else
    let item ← dataStackAt ((← get).dataStack.length - 4)
    pushDataStack item false
    let item ← dataStackAt ((← get).dataStack.length - 4)
    pushDataStack item false

/-- `op2Rot`: `s[:len-6] ++ s[len-4:] ++ [s[len-6], s[len-5]]`. -/
def op2Rot : VmM Unit := do
  applyCost 2
  let s := (← get).dataStack
  if s.length < 6 then throwErr .dataStackUnderflow
  else modify fun vm => { vm with dataStack := (s.drop 4).take 2 ++ s.take 4 ++ s.drop 6 }

/-- `op2Swap`: `s[:len-4] ++ s[len-2:] ++ [s[len-4], s[len-3]]`. -/
def op2Swap : VmM Unit := do
  applyCost 2
  let s := (← get).dataStack
  if s.length < 4 then throwErr .dataStackUnderflow
  else modify fun vm => { vm with dataStack := (s.drop 2).take 2 ++ s.take 2 ++ s.drop 4 }

/-- `opIfDup`. -/
def opIfDup : VmM Unit := do
  applyCost 1
  let item ← top
  if asBool item then pushDataStack item false

/-- `opDepth`. -/
def opDepth : VmM Unit := do
  applyCost 1
  pushBigInt (uint64 (← get).dataStack.length) false

/-- `opDrop`. -/
def opDrop : VmM Unit := do
  applyCost 1
  discard (pop false)

theorem opDrop_eq_ok {vm vm' : VM} {u : Unit} :
    opDrop.run vm = .ok u vm' ↔ ∃ x rest, vm.dataStack = x :: rest ∧ 1 ≤ vm.runLimit ∧
      vm' = { vm with
        runLimit := int64 (int64 (vm.runLimit - 1) + (8 + x.length)), dataStack := rest } := by
  unfold opDrop
  simp only [EStateM.run_bind_eq_ok, applyCost_eq_ok, EStateM.run_discard_eq_ok, pop_false_eq_ok]
  constructor
  · rintro ⟨_, _, ⟨h₁, rfl⟩, x, rest, hs, rfl⟩
    exact ⟨x, rest, hs, h₁, rfl⟩
  · rintro ⟨x, rest, hs, h₁, rfl⟩
    exact ⟨(), _, ⟨h₁, rfl⟩, x, rest, hs, rfl⟩

/-- `opDup`. -/
def opDup : VmM Unit := nDup 1

theorem opDup_eq_ok {vm vm' : VM} {u : Unit} :
    opDup.run vm = .ok u vm' ↔ ∃ x rest, vm.dataStack = x :: rest ∧ 1 ≤ vm.runLimit ∧
      8 + (x.length : Int) ≤ int64 (vm.runLimit - 1) ∧
      vm' = { vm with
        runLimit := int64 (int64 (vm.runLimit - 1) - (8 + x.length))
        dataStack := x :: x :: rest } := by
  unfold opDup nDup nDupLoop nDupLoop
  simp only [EStateM.run_bind_eq_ok, applyCost_eq_ok, EStateM.run_get_eq_ok, EStateM.run_ite_eq_ok,
    throwErr_ne_ok, dataStackAt_eq_ok, pushDataStack_false_eq_ok, EStateM.run_pure_eq_ok,
    exists_and_left, exists_eq_left, exists_eq_left', and_assoc, and_false, false_or, true_and]
  cases h : vm.dataStack with
  | nil => simp
  | cons x rest =>
    -- `nDup 1` reads `dataStack[len - 1]`, the top item
    simp [and_assoc, eq_comm]

/-- `opNip`: the top item leaves and comes back without memory accounting. -/
def opNip : VmM Unit := do
  applyCost 1
  let t ← top
  modify fun vm => { vm with dataStack := vm.dataStack.drop 1 }
  discard (pop false)
  modify fun vm => { vm with dataStack := t :: vm.dataStack }

/-- `opOver`. -/
def opOver : VmM Unit := do
  applyCost 1
  if (← get).dataStack.length < 2 then throwErr .dataStackUnderflow
  else
    let item ← dataStackAt ((← get).dataStack.length - 2)
    pushDataStack item false

/-- `opPick`: the offset is `int64(n.Uint64()) + 1`, checked against the stack size and then used
as the index `dataStackSize - off`. -/
def opPick : VmM Unit := do
  applyCost 2
  let n ← popBigInt false
  match addInt64 (int64 (uint64 n)) 1 with
  | none => throwErr .badValue
  | some off =>
    let dataStackSize : Int := (← get).dataStack.length
    if dataStackSize < off then throwErr .dataStackUnderflow
    else
      let item ← dataStackAt (int64 (dataStackSize - off))
      pushDataStack item false

/-- `rot`: the item at depth `n - 1` moves to the top, `s[:index] ++ s[index+1:] ++ [s[index]]`. -/
def rot (n : Int) : VmM Unit := do
  if n < 1 then throwErr .badValue
  else
    let s := (← get).dataStack
    if (s.length : Int) < n then throwErr .dataStackUnderflow
    else
      let item ← dataStackAt (s.length - n)
      modify fun vm => { vm with dataStack := item :: (s.take (n.toNat - 1) ++ s.drop n.toNat) }

/-- `opRoll`. -/
def opRoll : VmM Unit := do
  applyCost 2
  let n ← popBigInt false
  match addInt64 (int64 (uint64 n)) 1 with
  | none => throwErr .badValue
  | some off => rot off

/-- `opRot`. -/
def opRot : VmM Unit := do
  applyCost 2
  rot 3

/-- `opSwap`. -/
def opSwap : VmM Unit := do
  applyCost 1
  let s := (← get).dataStack
  if s.length < 2 then throwErr .dataStackUnderflow
  else modify fun vm => { vm with dataStack := (s.drop 1).take 1 ++ s.take 1 ++ s.drop 2 }

theorem opSwap_eq_ok {vm vm' : VM} {u : Unit} :
    opSwap.run vm = .ok u vm' ↔ ∃ a b rest, vm.dataStack = a :: b :: rest ∧ 1 ≤ vm.runLimit ∧
      vm' = { vm with runLimit := int64 (vm.runLimit - 1), dataStack := b :: a :: rest } := by
  unfold opSwap
  simp only [EStateM.run_bind_eq_ok, applyCost_eq_ok, EStateM.run_get_eq_ok, EStateM.run_ite_eq_ok,
    throwErr_ne_ok, EStateM.run_modify_eq_ok, exists_and_left, exists_eq_left, exists_eq_left',
    and_assoc, and_false, false_or]
  rcases h : vm.dataStack with _ | ⟨a, _ | ⟨b, rest⟩⟩
  · simp
  · simp
  · simp [and_assoc, eq_comm]

/-- `opTuck`: the top two items leave without memory accounting, the top one is pushed with it,
and the two come back on top. -/
def opTuck : VmM Unit := do
  applyCost 1
  let s := (← get).dataStack
  if s.length < 2 then throwErr .dataStackUnderflow
  else
    modify fun vm => { vm with dataStack := s.drop 2 }
    pushDataStack (s.getD 0 []) false
    modify fun vm => { vm with dataStack := s.take 2 ++ vm.dataStack }

end KuskCore.Vm
