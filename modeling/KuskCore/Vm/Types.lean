import KuskCore.GoInt

/-!
# VM values

`protocol/vm/types.go` and `errors.go`: byte strings, the VM's errors, and the two readings of a
stack item, as a boolean (`asBool`) and as a number (`asBigInt`).

Numbers are `uint256.Int` values, kept as `Nat` below `2 ^ 256`. A number item is little-endian:
`asBigInt` reverses the item and hands it to `SetBytes` (big-endian), and `bigIntBytes` reverses the
minimal big-endian `Bytes` of the number. The VM accepts only numbers whose two's-complement sign
is not negative, that is numbers below `2 ^ 255`.
-/

namespace KuskCore.Vm

open GoInt

/-- Go's `[]byte`. -/
abbrev Bytes := List UInt8

/-- The errors of `protocol/vm/errors.go`, with `checked.ErrOverflow` that `ParseOp` returns and
`bc.ErrMissingEntry` that a transaction's `CheckOutput` returns. -/
inductive VMError where
  | altStackUnderflow
  | badValue
  | context
  | dataStackUnderflow
  | disallowedOpcode
  | divZero
  | falseVMResult
  | longProgram
  | range
  | returnExecuted
  | runLimitExceeded
  | shortProgram
  | token
  | unexpected
  | unsupportedVM
  | verifyFailed
  | overflow
  | missingEntry
  deriving DecidableEq, Repr

/-! ## Booleans -/

/-- `AsBool`: an item is true when one of its bytes is not zero. -/
def asBool (bytes : Bytes) : Bool := bytes.any fun b => b != 0

/-- `BoolBytes`. -/
def boolBytes (b : Bool) : Bytes := if b then [1] else []

@[simp] theorem asBool_boolBytes (b : Bool) : asBool (boolBytes b) = b := by
  cases b <;> rfl

@[simp] theorem length_boolBytes (b : Bool) : (boolBytes b).length = if b then 1 else 0 := by
  cases b <;> rfl

/-! ## Numbers -/

/-- The big-endian value of a byte string. -/
def valueBE (buf : Bytes) : Nat := buf.foldl (fun acc b => 256 * acc + b.toNat) 0

/-- `uint256.Int.SetBytes`: the big-endian value of the last 32 bytes of `buf`. -/
def setBytes (buf : Bytes) : Nat := valueBE (buf.drop (buf.length - 32))

/-- `uint256.Int.Sign`, reading the 256 bits as a two's-complement number. -/
def sign (z : Nat) : Int := if z = 0 then 0 else if z < 2 ^ 255 then 1 else -1

/-- `uint256.Int.Bytes32`: the 32 big-endian bytes of `z`. -/
def bytes32 (z : Nat) : Bytes := (List.range 32).reverse.map fun i => UInt8.ofNat (z / 256 ^ i)

/-- `uint256.Int.Bytes`: `Bytes32` without its leading zero bytes. -/
def bytesBE (z : Nat) : Bytes := (bytes32 z).dropWhile fun b => b == 0

/-- `BigIntBytes`: the minimal little-endian bytes of `n`. -/
def bigIntBytes (n : Nat) : Bytes := (bytesBE n).reverse

/-- `AsBigInt`: at most 32 bytes, read little-endian, and not negative as a signed number. -/
def asBigInt (b : Bytes) : Except VMError Nat :=
  if b.length > 32 then .error .badValue
  else
    let res := setBytes b.reverse
    if sign res < 0 then .error .range else .ok res

@[simp] theorem asBigInt_nil : asBigInt [] = .ok 0 := rfl

/-- `bigIntInt64`: a number that fits a non-negative `int64`. -/
def bigIntInt64 (n : Nat) : Except VMError Int :=
  if ¬ n < 2 ^ 64 then .error .badValue
  else
    let i := int64 (uint64 n)
    if i < 0 then .error .badValue else .ok i

@[simp] theorem bigIntInt64_zero : bigIntInt64 0 = .ok 0 := rfl

theorem bigIntInt64_of_lt {n : Nat} (h : n < 2 ^ 63) : bigIntInt64 n = .ok n := by
  unfold bigIntInt64
  rw [if_neg (by omega)]
  simp only [uint64, Nat.mod_eq_of_lt (show n < 2 ^ 64 by omega), int64_natCast_of_lt h]
  rw [if_neg (by omega)]

/-- `Uint64Bytes`. -/
def uint64Bytes (n : Nat) : Bytes := bigIntBytes n

end KuskCore.Vm
