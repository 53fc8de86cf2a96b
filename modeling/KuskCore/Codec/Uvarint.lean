import Mathlib
/-!
# Unsigned base-128 varints

The varints of Go's `encoding/binary`: seven bits of the number per byte, least significant first,
with the top bit set on every byte but the last. `put` is `PutUvarint` and `read` is
`ReadUvarint`, which reads at most ten bytes and refuses a tenth byte above 1, the bits a
`uint64` cannot hold.

Both loops are bounded by Go's `MaxVarintLen64 = 10`: `PutUvarint` needs no more for a `uint64`,
and `ReadUvarint` stops there. `read_put` reads back every number below `2 ^ 63` with whatever
follows it.
-/

namespace Uvarint

/-- How `ReadUvarint` fails: the input ended before the first byte (`io.EOF`) or inside the
number (`io.ErrUnexpectedEOF`), or the number does not fit 64 bits. -/
inductive Error where
  | eof
  | unexpectedEOF
  | overflow
  deriving DecidableEq, Repr

/-- The loop of `PutUvarint`, for at most `n` bytes. -/
def putN : Nat → Nat → List UInt8
  | 0, _ => []
  | n + 1, x => if x < 128 then [UInt8.ofNat x] else UInt8.ofNat (x % 128 + 128) :: putN n (x / 128)

/-- `PutUvarint`. -/
def put (x : Nat) : List UInt8 := putN 10 x

/-- The loop of `ReadUvarint` at byte `i`, with `k` bytes left of the ten, and the bits `x` read so
far. -/
def readLoop : Nat → Nat → Nat → List UInt8 → Except Error (Nat × List UInt8)
  | 0, _, _, _ => .error .overflow
  | _ + 1, i, _, [] => .error (if i > 0 then .unexpectedEOF else .eof)
  | k + 1, i, x, b :: bs =>
    if b.toNat < 128 then
      if i = 9 ∧ b.toNat > 1 then .error .overflow else .ok (x + b.toNat * 2 ^ (7 * i), bs)
    else readLoop k (i + 1) (x + b.toNat % 128 * 2 ^ (7 * i)) bs

/-- `ReadUvarint`. -/
def read (bs : List UInt8) : Except Error (Nat × List UInt8) := readLoop 10 0 0 bs

theorem putN_of_lt {n x : Nat} (h : x < 128) : putN (n + 1) x = [UInt8.ofNat x] := by
  rw [putN, if_pos h]

theorem putN_of_ge {n x : Nat} (h : 128 ≤ x) :
    putN (n + 1) x = UInt8.ofNat (x % 128 + 128) :: putN n (x / 128) := by
  rw [putN, if_neg (by omega)]

/-- Reading from byte `i` what `putN` wrote with the `k` bytes left adds the number at the bits of
byte `i`, as long as it fits before byte 9. -/
theorem readLoop_putN (rest : List UInt8) :
    ∀ (k i acc x : Nat), i + k = 10 → x < 2 ^ (7 * (9 - i)) → i ≤ 8 →
      readLoop k i acc (putN k x ++ rest) = .ok (acc + x * 2 ^ (7 * i), rest) := by
  intro k
  induction k with
  | zero => intro i acc x hk _ hi; omega
  | succ k ih =>
    intro i acc x hk hx hi
    by_cases hsmall : x < 128
    · -- the last byte
      have hb : (UInt8.ofNat x).toNat = x := by rw [UInt8.toNat_ofNat']; omega
      rw [putN_of_lt hsmall, List.singleton_append, readLoop, hb, if_pos hsmall,
        if_neg (by omega)]
    · -- a byte with the continuation bit, then the rest of the number from byte `i + 1`
      have hb : (UInt8.ofNat (x % 128 + 128)).toNat = x % 128 + 128 := by
        rw [UInt8.toNat_ofNat']; omega
      have hpow : 2 ^ (7 * (9 - i)) = 2 ^ (7 * (9 - (i + 1))) * 128 := by
        rw [show 7 * (9 - i) = 7 * (9 - (i + 1)) + 7 by omega, Nat.pow_add]
      have hrest : x / 128 < 2 ^ (7 * (9 - (i + 1))) := by
        rw [Nat.div_lt_iff_lt_mul (by omega)]
        omega
      have hi' : i + 1 ≤ 8 := by
        refine Nat.succ_le_of_lt (Nat.lt_of_le_of_ne hi fun h8 => hsmall ?_)
        rw [h8] at hx
        simpa using hx
      rw [putN_of_ge (by omega), List.cons_append, readLoop, hb, if_neg (by omega),
        ih (i + 1) _ (x / 128) (by omega) hrest hi']
      congr 2
      have hshift : 2 ^ (7 * (i + 1)) = 2 ^ (7 * i) * 128 := by
        rw [show 7 * (i + 1) = 7 * i + 7 by omega, Nat.pow_add]
      rw [hshift, Nat.add_mod_right, Nat.mod_mod, Nat.add_assoc]
      congr 1
      calc x % 128 * 2 ^ (7 * i) + x / 128 * (2 ^ (7 * i) * 128)
          = (x % 128 + 128 * (x / 128)) * 2 ^ (7 * i) := by
            rw [Nat.add_mul]
            simp only [Nat.mul_comm, Nat.mul_left_comm]
        _ = x * 2 ^ (7 * i) := by rw [Nat.mod_add_div]

/-- `ReadUvarint` reads back what `PutUvarint` wrote, for every number below `2 ^ 63`. -/
theorem read_put {x : Nat} (h : x < 2 ^ 63) (rest : List UInt8) :
    read (put x ++ rest) = .ok (x, rest) := by
  have := readLoop_putN rest 10 0 0 x rfl h (by omega)
  simpa [read, put] using this

end Uvarint
