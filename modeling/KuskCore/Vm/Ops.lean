import KuskCore.Vm.Types
import KuskCore.Checked

/-!
# Opcodes and instruction decoding

`protocol/vm/ops.go` and `pushdata.go`: the opcode table, `ParseOp`, `ParseProgram`, and the
encoders `PushDataBytes` and `PushDataUint64`.

The table `ops` sends each byte to the Go function that implements it. `OpFn` names those
functions; the bytes without a name in the source are the expansion opcodes `NOPx`, run by `opNop`
and flagged by `isExpansion`, as `init` in `ops.go` arranges.
-/

namespace KuskCore.Vm

open GoInt KuskCore.Checked

/-! ## Opcode bytes used by the model -/

namespace Op

def op0 : UInt8 := 0x00
def op1 : UInt8 := 0x51
def op16 : UInt8 := 0x60
def data1 : UInt8 := 0x01
def data4 : UInt8 := 0x04
def data20 : UInt8 := 0x14
def data32 : UInt8 := 0x20
def data75 : UInt8 := 0x4b
def pushdata1 : UInt8 := 0x4c
def pushdata2 : UInt8 := 0x4d
def pushdata4 : UInt8 := 0x4e
def jump : UInt8 := 0x63
def jumpIf : UInt8 := 0x64
def fail : UInt8 := 0x6a
def checkPredicate : UInt8 := 0xc0
def drop : UInt8 := 0x75
def dup : UInt8 := 0x76
def swap : UInt8 := 0x7c
def pick : UInt8 := 0x79
def equalVerify : UInt8 := 0x88
def not : UInt8 := 0x91
def sha3 : UInt8 := 0xaa
def hash160 : UInt8 := 0xab
def checkSig : UInt8 := 0xac
def txSigHash : UInt8 := 0xae
def program : UInt8 := 0xc4

end Op

/-- The Go functions of the opcode table. -/
inductive OpFn where
  | opFalse | opPushdata | opNop | opJump | opJumpIf | opVerify | opFail | opCheckPredicate
  | opToAltStack | opFromAltStack | op2Drop | op2Dup | op3Dup | op2Over | op2Rot | op2Swap
  | opIfDup | opDepth | opDrop | opDup | opNip | opOver | opPick | opRoll | opRot | opSwap
  | opTuck
  | opCat | opSubstr | opLeft | opRight | opSize | opCatpushdata
  | opInvert | opAnd | opOr | opXor | opEqual | opEqualVerify
  | op1Add | op1Sub | op2Mul | op2Div | opNot | op0NotEqual | opAdd | opSub | opMul | opDiv
  | opMod | opLshift | opRshift | opBoolAnd | opBoolOr | opNumEqual | opNumEqualVerify
  | opNumNotEqual | opLessThan | opGreaterThan | opLessThanOrEqual | opGreaterThanOrEqual
  | opMin | opMax | opWithin
  | opSha256 | opSha3 | opHash160 | opCheckSig | opCheckMultiSig | opTxSigHash
  | opCheckOutput | opAsset | opAmount | opProgram | opIndex | opEntryID | opOutputID
  | opBlockHeight
  deriving DecidableEq, Repr

/-- The named entries of `ops`, after `init` has filled in `DATA_n`, `1`..`16` and
`CHECKPREDICATE`; `none` for the bytes `init` turns into `NOPx`. -/
def namedOps (op : Nat) : Option OpFn :=
  if 0x01 ≤ op ∧ op ≤ 0x4e then some .opPushdata
  else if 0x51 ≤ op ∧ op ≤ 0x60 then some .opPushdata
  else match op with
  | 0x00 => some .opFalse
  | 0x61 => some .opNop
  | 0x63 => some .opJump
  | 0x64 => some .opJumpIf
  | 0x69 => some .opVerify
  | 0x6a => some .opFail
  | 0xc0 => some .opCheckPredicate
  | 0x6b => some .opToAltStack
  | 0x6c => some .opFromAltStack
  | 0x6d => some .op2Drop
  | 0x6e => some .op2Dup
  | 0x6f => some .op3Dup
  | 0x70 => some .op2Over
  | 0x71 => some .op2Rot
  | 0x72 => some .op2Swap
  | 0x73 => some .opIfDup
  | 0x74 => some .opDepth
  | 0x75 => some .opDrop
  | 0x76 => some .opDup
  | 0x77 => some .opNip
  | 0x78 => some .opOver
  | 0x79 => some .opPick
  | 0x7a => some .opRoll
  | 0x7b => some .opRot
  | 0x7c => some .opSwap
  | 0x7d => some .opTuck
  | 0x7e => some .opCat
  | 0x7f => some .opSubstr
  | 0x80 => some .opLeft
  | 0x81 => some .opRight
  | 0x82 => some .opSize
  | 0x89 => some .opCatpushdata
  | 0x83 => some .opInvert
  | 0x84 => some .opAnd
  | 0x85 => some .opOr
  | 0x86 => some .opXor
  | 0x87 => some .opEqual
  | 0x88 => some .opEqualVerify
  | 0x8b => some .op1Add
  | 0x8c => some .op1Sub
  | 0x8d => some .op2Mul
  | 0x8e => some .op2Div
  | 0x91 => some .opNot
  | 0x92 => some .op0NotEqual
  | 0x93 => some .opAdd
  | 0x94 => some .opSub
  | 0x95 => some .opMul
  | 0x96 => some .opDiv
  | 0x97 => some .opMod
  | 0x98 => some .opLshift
  | 0x99 => some .opRshift
  | 0x9a => some .opBoolAnd
  | 0x9b => some .opBoolOr
  | 0x9c => some .opNumEqual
  | 0x9d => some .opNumEqualVerify
  | 0x9e => some .opNumNotEqual
  | 0x9f => some .opLessThan
  | 0xa0 => some .opGreaterThan
  | 0xa1 => some .opLessThanOrEqual
  | 0xa2 => some .opGreaterThanOrEqual
  | 0xa3 => some .opMin
  | 0xa4 => some .opMax
  | 0xa5 => some .opWithin
  | 0xa8 => some .opSha256
  | 0xaa => some .opSha3
  | 0xab => some .opHash160
  | 0xac => some .opCheckSig
  | 0xad => some .opCheckMultiSig
  | 0xae => some .opTxSigHash
  | 0xc1 => some .opCheckOutput
  | 0xc2 => some .opAsset
  | 0xc3 => some .opAmount
  | 0xc4 => some .opProgram
  | 0xc9 => some .opIndex
  | 0xca => some .opEntryID
  | 0xcb => some .opOutputID
  | 0xcd => some .opBlockHeight
  | _ => none

/-- `ops[op].fn`: unnamed bytes run `opNop`. -/
def ops (op : UInt8) : OpFn := (namedOps op.toNat).getD .opNop

/-- `isExpansion`: the bytes without a name. -/
def isExpansion (op : UInt8) : Bool := (namedOps op.toNat).isNone

/-- The push opcodes `DATA_n` and `PUSHDATAn` run `opPushdata`. -/
theorem ops_of_push {op : UInt8} (h₁ : 1 ≤ op.toNat) (h₂ : op.toNat ≤ 0x4e) :
    ops op = .opPushdata ∧ isExpansion op = false := by
  unfold ops isExpansion namedOps
  rw [if_pos ⟨h₁, h₂⟩]
  exact ⟨rfl, rfl⟩

/-! ## Decoding -/

/-- `Instruction`: the opcode, its length in bytes, and its pushed data. -/
structure Instruction where
  op : UInt8
  len : Nat
  data : Bytes
  deriving DecidableEq, Repr

/-- Go's slice expression `b[lo:hi]`, for `lo ≤ hi ≤ len(b)`. -/
def slice (b : Bytes) (lo hi : Nat) : Bytes := (b.take hi).drop lo

/-- `binary.LittleEndian.Uint16` of two bytes. -/
def leUint16 (b : Bytes) : Nat := (b.getD 0 0).toNat + 256 * (b.getD 1 0).toNat

/-- `binary.LittleEndian.Uint32` of four bytes. -/
def leUint32 (b : Bytes) : Nat :=
  (b.getD 0 0).toNat + 256 * (b.getD 1 0).toNat + 65536 * (b.getD 2 0).toNat +
    16777216 * (b.getD 3 0).toNat

/-- `ParseOp`. Every index the source reads is below `l ≤ len(prog)` by the guard before it. -/
def parseOp (prog : Bytes) (pc : Nat) : Except VMError Instruction :=
  let l := uint32 prog.length
  if l > maxInt32 then .error .longProgram
  else if pc ≥ l then .error .shortProgram
  else
    let opcode := prog.getD pc 0
    if Op.op1 ≤ opcode ∧ opcode ≤ Op.op16 then
      .ok ⟨opcode, 1, [opcode - Op.op1 + 1]⟩
    else if Op.data1 ≤ opcode ∧ opcode ≤ Op.data75 then
      let len := 1 + (opcode - Op.data1 + 1).toNat
      match addUint32 pc len with
      | none => .error .overflow
      | some e => if e > l then .error .shortProgram else .ok ⟨opcode, len, slice prog (pc + 1) e⟩
    else if opcode = Op.pushdata1 then
      if pc = l - 1 then .error .shortProgram
      else
        let len := 1 + ((prog.getD (pc + 1) 0).toNat + 1)
        match addUint32 pc len with
        | none => .error .overflow
        | some e => if e > l then .error .shortProgram else .ok ⟨opcode, len, slice prog (pc + 2) e⟩
    else if opcode = Op.pushdata2 then
      if prog.length < 3 ∨ pc > uint32 (l + 2 ^ 32 - 3) then .error .shortProgram
      else
        let len := 1 + (leUint16 (slice prog (pc + 1) (pc + 3)) + 2)
        match addUint32 pc len with
        | none => .error .overflow
        | some e => if e > l then .error .shortProgram else .ok ⟨opcode, len, slice prog (pc + 3) e⟩
    else if opcode = Op.pushdata4 then
      if prog.length < 5 ∨ pc > uint32 (l + 2 ^ 32 - 5) then .error .shortProgram
      else
        match addUint32 (1 + 4) (leUint32 (slice prog (pc + 1) (pc + 5))) with
        | none => .error .overflow
        | some len =>
          match addUint32 pc len with
          | none => .error .overflow
          | some e => if e > l then .error .shortProgram else .ok ⟨opcode, len, slice prog (pc + 5) e⟩
    else if opcode = Op.jump ∨ opcode = Op.jumpIf then
      match addUint32 pc (1 + 4) with
      | none => .error .overflow
      | some e => if e > l then .error .shortProgram else .ok ⟨opcode, 1 + 4, slice prog (pc + 1) e⟩
    else .ok ⟨opcode, 1, []⟩

/-- An opcode one byte long with no data: not a small number, not a push, not a jump. -/
def Op.IsBare (op : UInt8) : Prop :=
  op.toNat = 0 ∨ (0x4f ≤ op.toNat ∧ op.toNat ≤ 0x50) ∨
    (0x60 < op.toNat ∧ op.toNat ≠ 0x63 ∧ op.toNat ≠ 0x64)

instance : DecidablePred Op.IsBare := fun _ => inferInstanceAs (Decidable (_ ∨ _))

section Decode

variable {prog : Bytes} {pc : Nat} {op : UInt8}

theorem parseOp_bare (hl : prog.length ≤ maxInt32) (hpc : pc < prog.length)
    (hop : prog.getD pc 0 = op) (hb : Op.IsBare op) : parseOp prog pc = .ok ⟨op, 1, []⟩ := by
  unfold maxInt32 at hl
  unfold Op.IsBare at hb
  have hl' : uint32 prog.length = prog.length := uint32_of_lt (by omega)
  simp only [parseOp, hl', hop, maxInt32, UInt8.le_iff_toNat_le, Op.op1, Op.op16, Op.data1,
    Op.data75, Op.pushdata1, Op.pushdata2, Op.pushdata4, Op.jump, Op.jumpIf, ← UInt8.toNat_inj,
    UInt8.reduceToNat]
  -- every branch before the last is excluded by the opcode's value
  rw [if_neg (by omega), if_neg (by omega), if_neg (by omega), if_neg (by omega), if_neg (by omega),
    if_neg (by omega), if_neg (by omega), if_neg (by omega)]

/-- The small numbers `1` to `16` push their value as one byte. -/
theorem parseOp_num (hl : prog.length ≤ maxInt32) (hpc : pc < prog.length)
    (hop : prog.getD pc 0 = op) (h₁ : Op.op1 ≤ op) (h₂ : op ≤ Op.op16) :
    parseOp prog pc = .ok ⟨op, 1, [op - Op.op1 + 1]⟩ := by
  unfold maxInt32 at hl
  have hl' : uint32 prog.length = prog.length := uint32_of_lt (by omega)
  simp only [parseOp, hl', hop, maxInt32]
  rw [if_neg (by omega), if_neg (by omega), if_pos ⟨h₁, h₂⟩]

/-- `OP_DATA_n` pushes the `n` bytes after it. -/
theorem parseOp_data (hl : prog.length ≤ maxInt32) (hop : prog.getD pc 0 = op)
    (h₁ : 1 ≤ op.toNat) (h₂ : op.toNat ≤ 75) (hend : pc + 1 + op.toNat ≤ prog.length) :
    parseOp prog pc = .ok ⟨op, 1 + op.toNat, slice prog (pc + 1) (pc + 1 + op.toNat)⟩ := by
  unfold maxInt32 at hl
  have hl' : uint32 prog.length = prog.length := uint32_of_lt (by omega)
  simp only [parseOp, hl', hop, maxInt32, UInt8.le_iff_toNat_le, Op.op1, Op.op16, Op.data1,
    Op.data75, UInt8.reduceToNat]
  rw [if_neg (by omega), if_neg (by omega), if_neg (by omega), if_pos ⟨h₁, h₂⟩]
  have hlen : (op - 1 + 1).toNat = op.toNat := by simp
  rw [hlen, (addUint32_eq_some_iff (by unfold maxUint32; omega)).mpr ⟨rfl, by unfold maxUint32; omega⟩]
  dsimp only
  rw [if_neg (by omega), Nat.add_assoc]

/-- `PUSHDATA1` pushes the bytes counted by the byte after it. -/
theorem parseOp_pushdata1 {n : UInt8} (hl : prog.length ≤ maxInt32)
    (hop : prog.getD pc 0 = Op.pushdata1) (hn : prog.getD (pc + 1) 0 = n)
    (hend : pc + 2 + n.toNat ≤ prog.length) :
    parseOp prog pc = .ok ⟨Op.pushdata1, 2 + n.toNat, slice prog (pc + 2) (pc + 2 + n.toNat)⟩ := by
  unfold maxInt32 at hl
  have hl' : uint32 prog.length = prog.length := uint32_of_lt (by omega)
  simp only [parseOp, hl', hop, hn, maxInt32]
  rw [if_neg (by omega), if_neg (by omega), if_neg (by decide), if_neg (by decide), if_pos trivial,
    if_neg (by omega)]
  rw [(addUint32_eq_some_iff (by unfold maxUint32; omega)).mpr ⟨rfl, by unfold maxUint32; omega⟩]
  dsimp only
  rw [if_neg (by omega), show 1 + (n.toNat + 1) = 2 + n.toNat by omega, Nat.add_assoc]

/-- `PUSHDATA2` pushes the bytes counted by the two bytes after it, little-endian. -/
theorem parseOp_pushdata2 {n : Nat} (hl : prog.length ≤ maxInt32)
    (hop : prog.getD pc 0 = Op.pushdata2) (hn : leUint16 (slice prog (pc + 1) (pc + 3)) = n)
    (hend : pc + 3 + n ≤ prog.length) :
    parseOp prog pc = .ok ⟨Op.pushdata2, 3 + n, slice prog (pc + 3) (pc + 3 + n)⟩ := by
  unfold maxInt32 at hl
  have hl' : uint32 prog.length = prog.length := uint32_of_lt (by omega)
  have hwrap : uint32 (prog.length + 2 ^ 32 - 3) = prog.length - 3 := by
    unfold uint32
    omega
  simp only [parseOp, hl', hop, hn, hwrap, maxInt32]
  rw [if_neg (by omega), if_neg (by omega), if_neg (by decide), if_neg (by decide), if_neg (by decide),
    if_pos trivial, if_neg (by omega)]
  rw [(addUint32_eq_some_iff (by unfold maxUint32; omega)).mpr ⟨rfl, by unfold maxUint32; omega⟩]
  dsimp only
  rw [if_neg (by omega), show 1 + (n + 2) = 3 + n by omega, Nat.add_assoc]

/-- `PUSHDATA4` pushes the bytes counted by the four bytes after it, little-endian. -/
theorem parseOp_pushdata4 {n : Nat} (hl : prog.length ≤ maxInt32)
    (hop : prog.getD pc 0 = Op.pushdata4) (hn : leUint32 (slice prog (pc + 1) (pc + 5)) = n)
    (hend : pc + 5 + n ≤ prog.length) :
    parseOp prog pc = .ok ⟨Op.pushdata4, 5 + n, slice prog (pc + 5) (pc + 5 + n)⟩ := by
  unfold maxInt32 at hl
  have hl' : uint32 prog.length = prog.length := uint32_of_lt (by omega)
  have hwrap : uint32 (prog.length + 2 ^ 32 - 5) = prog.length - 5 := by
    unfold uint32
    omega
  simp only [parseOp, hl', hop, hn, hwrap, maxInt32]
  rw [if_neg (by omega), if_neg (by omega), if_neg (by decide), if_neg (by decide), if_neg (by decide),
    if_neg (by decide), if_pos trivial, if_neg (by omega)]
  rw [(addUint32_eq_some_iff (by unfold maxUint32; omega)).mpr ⟨rfl, by unfold maxUint32; omega⟩]
  dsimp only
  rw [(addUint32_eq_some_iff (by unfold maxUint32; omega)).mpr ⟨rfl, by unfold maxUint32; omega⟩]
  dsimp only
  rw [if_neg (by omega), show 1 + 4 + n = 5 + n by omega, Nat.add_assoc]

end Decode

/-- The loop of `ParseProgram` from `pc`, with the instructions parsed so far in reverse. The fuel
is `len(prog) + 1` in `parseProgram`; every instruction is at least one byte long, so it is never
exhausted, and the value returned then is never used. -/
def parseProgramFrom (prog : Bytes) : Nat → Nat → List Instruction → Except VMError (List Instruction)
  | 0, _, acc => .ok acc.reverse
  | fuel + 1, pc, acc =>
    if pc < uint32 prog.length then
      match parseOp prog pc with
      | .error e => .error e
      | .ok inst =>
        match addUint32 pc inst.len with
        | none => .error .overflow
        | some pc' => parseProgramFrom prog fuel pc' (inst :: acc)
    else .ok acc.reverse

theorem parseProgramFrom_step {prog : Bytes} {fuel pc : Nat} {acc : List Instruction}
    {inst : Instruction} (hpc : pc < uint32 prog.length) (hp : parseOp prog pc = .ok inst)
    (hl : pc + inst.len ≤ maxUint32) :
    parseProgramFrom prog (fuel + 1) pc acc = parseProgramFrom prog fuel (pc + inst.len) (inst :: acc) := by
  rw [parseProgramFrom, if_pos hpc, hp]
  dsimp only
  rw [(addUint32_eq_some_iff (by omega)).mpr ⟨rfl, hl⟩]

theorem parseProgramFrom_end {prog : Bytes} {fuel pc : Nat} {acc : List Instruction}
    (hpc : ¬ pc < uint32 prog.length) : parseProgramFrom prog (fuel + 1) pc acc = .ok acc.reverse := by
  rw [parseProgramFrom, if_neg hpc]

/-- `ParseProgram`. -/
def parseProgram (prog : Bytes) : Except VMError (List Instruction) :=
  parseProgramFrom prog (prog.length + 1) 0 []

/-! ## Tiling

`ParseOp` at any offset of a program below `MaxInt32` bytes either stops with `ErrShortProgram` or
an overflow, or returns an instruction that covers the next `len ≥ 1` bytes of the program and no
more (`parseOp_cases`). Its data is the bytes after the instruction's header, except for `OP_1` to
`OP_16`, whose data is their number. `ParseProgram` therefore reaches the end of the program one
instruction after the other, and its fuel never runs out before it does. -/

/-- `OP_1` to `OP_16`. -/
def Op.IsSmallNumber (op : UInt8) : Prop := Op.op1 ≤ op ∧ op ≤ Op.op16

instance : DecidablePred Op.IsSmallNumber := fun _ => inferInstanceAs (Decidable (_ ∧ _))

/-- Where an instruction's data starts: after the count of a `PUSHDATAn`, after the opcode for
every other instruction. -/
def dataStart (op : UInt8) : Nat :=
  if op = Op.pushdata1 then 2 else if op = Op.pushdata2 then 3 else if op = Op.pushdata4 then 5 else 1

/-- The instruction decoded at `pc` covers bytes `pc` to `pc + len` of the program, at least one,
and its data are the last bytes of that range, from `dataStart`; a small number pushes itself. -/
def Tiles (prog : Bytes) (pc : Nat) (inst : Instruction) : Prop :=
  inst.op = prog.getD pc 0 ∧ 1 ≤ inst.len ∧ pc + inst.len ≤ prog.length ∧
    if Op.IsSmallNumber inst.op then inst.len = 1 ∧ inst.data = [inst.op - Op.op1 + 1]
    else dataStart inst.op ≤ inst.len ∧ inst.data = slice prog (pc + dataStart inst.op) (pc + inst.len)

/-- What `ParseOp` can return: a tiling instruction, or one of its two refusals. -/
def ParseOutcome (prog : Bytes) (pc : Nat) : Except VMError Instruction → Prop
  | .ok inst => Tiles prog pc inst
  | .error e => e = .shortProgram ∨ e = .overflow

/-- A slice that starts where it ends is empty. -/
@[simp] theorem slice_self (b : Bytes) (n : Nat) : slice b n n = [] :=
  List.drop_eq_nil_of_le (List.length_take_le n b)

section Tiling

variable {prog : Bytes} {pc : Nat}

/-- An instruction with a header of `dataStart op` bytes that ends inside the program. -/
theorem tiles_of_end (prog : Bytes) (pc : Nat) {op : UInt8} (len : Nat) (hop : prog.getD pc 0 = op)
    (hs : ¬ Op.IsSmallNumber op) (hk : dataStart op ≤ len) (hend : pc + len ≤ prog.length) :
    Tiles prog pc ⟨op, len, slice prog (pc + dataStart op) (pc + len)⟩ := by
  have h₁ : 1 ≤ dataStart op := by
    unfold dataStart
    split
    · omega
    split
    · omega
    split <;> omega
  refine ⟨hop.symm, by dsimp only; omega, hend, ?_⟩
  dsimp only
  rw [if_neg hs]
  exact ⟨hk, rfl⟩

/-- The opcodes below `OP_PUSHDATA1` and past `OP_PUSHDATA4` start their data after the opcode. -/
theorem dataStart_of_ne {op : UInt8} (h₁ : op ≠ Op.pushdata1) (h₂ : op ≠ Op.pushdata2)
    (h₄ : op ≠ Op.pushdata4) : dataStart op = 1 := by
  unfold dataStart
  rw [if_neg h₁, if_neg h₂, if_neg h₄]

/-- The outcome of `ParseOp` at an offset of a program below `MaxInt32` bytes. Each branch of the
source either refuses or returns an instruction whose end `pc + len` it has checked against
`len(prog)`. -/
theorem parseOp_cases (hl : prog.length ≤ maxInt32) {r : Except VMError Instruction}
    (h : parseOp prog pc = r) : ParseOutcome prog pc r := by
  subst h
  have hl' : uint32 prog.length = prog.length := uint32_of_lt (by unfold maxInt32 at hl; omega)
  unfold parseOp
  simp only [hl']
  -- the opcode tests of the source, one `if` at a time, with the inner checks split
  rw [if_neg (by omega)]
  by_cases hpc : pc ≥ prog.length
  · rw [if_pos hpc]
    exact .inl rfl
  rw [if_neg hpc]
  have hpc32 : pc ≤ maxUint32 := by unfold maxUint32 maxInt32 at *; omega
  by_cases hn : Op.op1 ≤ prog.getD pc 0 ∧ prog.getD pc 0 ≤ Op.op16
  · -- OP_1 .. OP_16
    rw [if_pos hn]
    refine ⟨rfl, Nat.le_refl 1, show pc + 1 ≤ prog.length by omega, ?_⟩
    dsimp only
    rw [if_pos (show Op.IsSmallNumber (prog.getD pc 0) from hn)]
    exact ⟨rfl, rfl⟩
  rw [if_neg hn]
  by_cases hd : Op.data1 ≤ prog.getD pc 0 ∧ prog.getD pc 0 ≤ Op.data75
  · -- OP_DATA_1 .. OP_DATA_75
    rw [if_pos hd]
    have hd' : (prog.getD pc 0).toNat ≤ 0x4b := hd.2
    have hk : dataStart (prog.getD pc 0) = 1 := dataStart_of_ne
      (fun h' => by rw [h'] at hd'; exact absurd hd' (by decide))
      (fun h' => by rw [h'] at hd'; exact absurd hd' (by decide))
      (fun h' => by rw [h'] at hd'; exact absurd hd' (by decide))
    split
    · exact .inr rfl
    rename_i e he
    obtain ⟨rfl, -⟩ := (addUint32_eq_some_iff hpc32).mp he
    split
    · exact .inl rfl
    have := tiles_of_end prog pc (1 + (prog.getD pc 0 - Op.data1 + 1).toNat)
      rfl hn (by rw [hk]; omega) (by omega)
    rwa [hk] at this
  rw [if_neg hd]
  by_cases hp₁ : prog.getD pc 0 = Op.pushdata1
  · -- OP_PUSHDATA1
    rw [if_pos hp₁]
    split
    · exact .inl rfl
    split
    · exact .inr rfl
    rename_i e he
    obtain ⟨rfl, -⟩ := (addUint32_eq_some_iff hpc32).mp he
    split
    · exact .inl rfl
    have hk : dataStart (prog.getD pc 0) = 2 := by rw [hp₁]; rfl
    have := tiles_of_end prog pc (1 + ((prog.getD (pc + 1) 0).toNat + 1))
      rfl hn (by rw [hk]; omega) (by omega)
    rwa [hk] at this
  rw [if_neg hp₁]
  by_cases hp₂ : prog.getD pc 0 = Op.pushdata2
  · -- OP_PUSHDATA2
    rw [if_pos hp₂]
    split
    · exact .inl rfl
    split
    · exact .inr rfl
    rename_i e he
    obtain ⟨rfl, -⟩ := (addUint32_eq_some_iff hpc32).mp he
    split
    · exact .inl rfl
    have hk : dataStart (prog.getD pc 0) = 3 := by rw [hp₂]; rfl
    have := tiles_of_end prog pc (1 + (leUint16 (slice prog (pc + 1) (pc + 3)) + 2)) rfl hn
      (by rw [hk]; omega) (by omega)
    rwa [hk] at this
  rw [if_neg hp₂]
  by_cases hp₄ : prog.getD pc 0 = Op.pushdata4
  · -- OP_PUSHDATA4: the length is itself a checked sum
    rw [if_pos hp₄]
    split
    · exact .inl rfl
    split
    · exact .inr rfl
    rename_i len hlen
    obtain ⟨rfl, hlen'⟩ := (addUint32_eq_some_iff (by unfold maxUint32; omega)).mp hlen
    split
    · exact .inr rfl
    rename_i e he
    obtain ⟨rfl, -⟩ := (addUint32_eq_some_iff hpc32).mp he
    split
    · exact .inl rfl
    have hk : dataStart (prog.getD pc 0) = 5 := by rw [hp₄]; rfl
    have := tiles_of_end prog pc (1 + 4 + leUint32 (slice prog (pc + 1) (pc + 5))) rfl hn
      (by rw [hk]; omega) (by omega)
    rwa [hk] at this
  rw [if_neg hp₄]
  have hk : dataStart (prog.getD pc 0) = 1 := dataStart_of_ne hp₁ hp₂ hp₄
  split
  · -- OP_JUMP and OP_JUMPIF: four bytes of target
    split
    · exact .inr rfl
    rename_i e he
    obtain ⟨rfl, -⟩ := (addUint32_eq_some_iff hpc32).mp he
    split
    · exact .inl rfl
    have := tiles_of_end prog pc (1 + 4) rfl hn (by rw [hk]; omega)
      (by omega)
    rwa [hk] at this
  · -- every other opcode is one byte without data
    have := tiles_of_end prog pc 1 rfl hn (by omega)
      (by omega)
    rwa [hk, slice_self] at this

/-- The instructions `insts` cover the program from `pc` to its end, each starting where the one
before it ends. -/
def TilesFrom (prog : Bytes) : Nat → List Instruction → Prop
  | pc, [] => pc = prog.length
  | pc, inst :: insts => Tiles prog pc inst ∧ TilesFrom prog (pc + inst.len) insts

theorem TilesFrom.sum_len : ∀ {pc : Nat} {insts : List Instruction}, TilesFrom prog pc insts →
    pc + (insts.map Instruction.len).sum = prog.length
  | _, [], h => by
    rw [List.map_nil, List.sum_nil, Nat.add_zero]
    exact h
  | pc, inst :: insts, ⟨_, h⟩ => by
    have := TilesFrom.sum_len h
    simp only [List.map_cons, List.sum_cons]
    omega

/-- One more pass of the loop than the bytes left is as good as any more. Each pass decodes an
instruction that ends inside the program, so it moves the offset forward by at least one. -/
theorem parseProgramFrom_fuel (hl : prog.length ≤ maxInt32) :
    ∀ {fuel fuel' pc : Nat} {acc : List Instruction}, prog.length - pc < fuel →
      prog.length - pc < fuel' → parseProgramFrom prog fuel pc acc = parseProgramFrom prog fuel' pc acc
  | 0, _, _, _, h, _ => by omega
  | _, 0, _, _, _, h => by omega
  | fuel + 1, fuel' + 1, pc, acc, h, h' => by
    have hl' : uint32 prog.length = prog.length := uint32_of_lt (by unfold maxInt32 at hl; omega)
    by_cases hpc : pc < prog.length
    · have hpc' : pc < uint32 prog.length := by rw [hl']; exact hpc
      rcases hp : parseOp prog pc with e | inst
      · rw [parseProgramFrom, parseProgramFrom, if_pos hpc', if_pos hpc', hp]
      · obtain ⟨-, hlen, hle, -⟩ : Tiles prog pc inst := parseOp_cases hl hp
        have hend : pc + inst.len ≤ maxUint32 := by unfold maxUint32 maxInt32 at *; omega
        rw [parseProgramFrom_step hpc' hp hend, parseProgramFrom_step hpc' hp hend]
        exact parseProgramFrom_fuel hl (by omega) (by omega)
    · have hpc' : ¬ pc < uint32 prog.length := by rw [hl']; exact hpc
      rw [parseProgramFrom_end hpc', parseProgramFrom_end hpc']

/-- A successful run of the loop with enough fuel returns the instructions so far followed by a
tiling of the rest of the program. -/
theorem parseProgramFrom_tiles (hl : prog.length ≤ maxInt32) :
    ∀ {fuel pc : Nat} {acc insts : List Instruction}, pc ≤ prog.length → prog.length - pc < fuel →
      parseProgramFrom prog fuel pc acc = .ok insts →
      ∃ rest, insts = acc.reverse ++ rest ∧ TilesFrom prog pc rest
  | 0, _, _, _, _, h, _ => by omega
  | fuel + 1, pc, acc, insts, hpc, hf, h => by
    have hl' : uint32 prog.length = prog.length := uint32_of_lt (by unfold maxInt32 at hl; omega)
    by_cases hlt : pc < prog.length
    · have hpc' : pc < uint32 prog.length := by rw [hl']; exact hlt
      rcases hp : parseOp prog pc with e | inst
      · rw [parseProgramFrom, if_pos hpc', hp] at h
        cases h
      · have ht : Tiles prog pc inst := parseOp_cases hl hp
        obtain ⟨-, hlen, hle, -⟩ := id ht
        have hend : pc + inst.len ≤ maxUint32 := by unfold maxUint32 maxInt32 at *; omega
        rw [parseProgramFrom_step hpc' hp hend] at h
        obtain ⟨rest, rfl, hrest⟩ := parseProgramFrom_tiles hl hle (by omega) h
        exact ⟨inst :: rest, by simp, ht, hrest⟩
    · have hpc' : ¬ pc < uint32 prog.length := by rw [hl']; exact hlt
      rw [parseProgramFrom_end hpc'] at h
      cases h
      exact ⟨[], by simp, show pc = prog.length by omega⟩

/-- `ParseOp` and `ParseProgram` tile a program of at most `MaxInt32` bytes: at every offset
`ParseOp` refuses with `ErrShortProgram` or an overflow, or decodes an instruction of `len ≥ 1`
bytes inside the program whose data ends the instruction, after its header (a small number
`OP_1` .. `OP_16` pushes its number instead); the fuel of `ParseProgram` is never the reason it
stops; and a program it decodes is covered by its instructions, whose lengths add up to it. -/
theorem parseProgram_tiles (hl : prog.length ≤ maxInt32) :
    (∀ pc < prog.length, ParseOutcome prog pc (parseOp prog pc)) ∧
    (∀ fuel, prog.length < fuel → parseProgramFrom prog fuel 0 [] = parseProgram prog) ∧
    (∀ insts, parseProgram prog = .ok insts →
      TilesFrom prog 0 insts ∧ (insts.map Instruction.len).sum = prog.length) := by
  refine ⟨fun pc _ => parseOp_cases hl rfl, fun fuel hf => ?_, fun insts h => ?_⟩
  · exact parseProgramFrom_fuel hl (by omega) (by omega)
  · obtain ⟨rest, rfl, hrest⟩ := parseProgramFrom_tiles hl (Nat.zero_le _) (by omega) h
    have := hrest.sum_len
    simp only [Nat.zero_add] at this ⊢
    exact ⟨hrest, this⟩

/-- `OP_1`, a `PUSHDATA1` of two bytes and `OP_0` decode and tile the program. -/
theorem parseProgram_tiles_sample :
    [Op.op1, Op.pushdata1, 2, 0xaa, 0xbb, Op.op0].length ≤ maxInt32 ∧
      ((∀ pc < [Op.op1, Op.pushdata1, 2, 0xaa, 0xbb, Op.op0].length,
          ParseOutcome [Op.op1, Op.pushdata1, 2, 0xaa, 0xbb, Op.op0] pc
            (parseOp [Op.op1, Op.pushdata1, 2, 0xaa, 0xbb, Op.op0] pc)) ∧
        (∀ fuel, [Op.op1, Op.pushdata1, 2, 0xaa, 0xbb, Op.op0].length < fuel →
          parseProgramFrom [Op.op1, Op.pushdata1, 2, 0xaa, 0xbb, Op.op0] fuel 0 [] =
            parseProgram [Op.op1, Op.pushdata1, 2, 0xaa, 0xbb, Op.op0]) ∧
        (∀ insts, parseProgram [Op.op1, Op.pushdata1, 2, 0xaa, 0xbb, Op.op0] = .ok insts →
          TilesFrom [Op.op1, Op.pushdata1, 2, 0xaa, 0xbb, Op.op0] 0 insts ∧
            (insts.map Instruction.len).sum = [Op.op1, Op.pushdata1, 2, 0xaa, 0xbb, Op.op0].length)) :=
  ⟨by decide, parseProgram_tiles (by decide)⟩

/-- The data of `OP_1` is the number `1`, not the program's byte `0x51`. -/
theorem smallNumberData_counterexample :
    parseOp [Op.op1] 0 = .ok ⟨Op.op1, 1, [1]⟩ ∧ slice [Op.op1] 0 1 = [0x51] :=
  ⟨rfl, rfl⟩

end Tiling

/-! ## Push-data encoding -/

/-- The little-endian bytes of the low `k` bytes of `n`, as `binary.LittleEndian.PutUint16` and
`PutUint32` write them. -/
def leBytes (n : Nat) : Nat → Bytes
  | 0 => []
  | k + 1 => UInt8.ofNat n :: leBytes (n / 256) k

/-- `PushDataBytes`. -/
def pushDataBytes (d : Bytes) : Bytes :=
  let l := d.length
  if l = 0 then [Op.op0]
  else if l ≤ 75 then (Op.data1 + UInt8.ofNat l - 1) :: d
  else if l < 2 ^ 8 then Op.pushdata1 :: UInt8.ofNat l :: d
  else if l < 2 ^ 16 then Op.pushdata2 :: leBytes l 2 ++ d
  else Op.pushdata4 :: leBytes l 4 ++ d

/-- `PushDataUint64`. -/
def pushDataUint64 (n : Nat) : Bytes :=
  if n = 0 then [Op.op0]
  else if 1 ≤ n ∧ n ≤ 16 then [Op.op1 + UInt8.ofNat n - 1]
  else pushDataBytes (uint64Bytes n)

end KuskCore.Vm
