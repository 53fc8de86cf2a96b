import Mathlib
/-!
# Go's fixed-width integers

Go's `int64`, `uint64` and `uint32` arithmetic wraps around without a trace. The development keeps
Go's integers as `Int` and `Nat` and applies the wrap explicitly wherever the code can overflow:
`int64 x` is the two's-complement value of `x` modulo `2 ^ 64`, which is what Go stores after an
overflowing `int64` operation and after the conversion `int64(u)` of a `uint64`.

Nothing here is specific to one program; the lemmas say when a wrap is the identity.
-/

namespace GoInt

/-- Go's `math.MaxInt64`. -/
def maxInt64 : Int := 2 ^ 63 - 1

/-- Go's `math.MinInt64`. -/
def minInt64 : Int := -2 ^ 63

/-- Go's `math.MaxInt32`. -/
def maxInt32 : Nat := 2 ^ 31 - 1

/-- Go's `math.MaxUint32`. -/
def maxUint32 : Nat := 2 ^ 32 - 1

/-- The `int64` Go stores for the mathematical value `x`. -/
def int64 (x : Int) : Int := x.bmod (2 ^ 64)

/-- The low 64 bits of `x`: Go's `uint64(x)`. -/
def uint64 (x : Nat) : Nat := x % 2 ^ 64

/-- The low 32 bits of `x`: Go's `uint32(x)`. -/
def uint32 (x : Nat) : Nat := x % 2 ^ 32

/-- Go's `a - b` on two `uint64`s, which wraps below zero. -/
def subUint64 (a b : Nat) : Nat := uint64 (a + 2 ^ 64 - b)

theorem int64_of_le {x : Int} (h₁ : -2 ^ 63 ≤ x) (h₂ : x < 2 ^ 63) : int64 x = x :=
  Int.bmod_eq_of_le (by omega) (by omega)

/-- An `int64` wrap does nothing inside `[minInt64, maxInt64]`. -/
@[simp] theorem int64_of_mem {x : Int} (h₁ : minInt64 ≤ x) (h₂ : x ≤ maxInt64) : int64 x = x :=
  int64_of_le (by unfold minInt64 at h₁; omega) (by unfold maxInt64 at h₂; omega)

@[simp] theorem int64_int64 (x : Int) : int64 (int64 x) = int64 x := Int.bmod_bmod

/-- `int64` has period `2 ^ 64`. -/
theorem int64_sub_two_pow (x : Int) : int64 (x - 2 ^ 64) = int64 x := by
  unfold int64
  rw [Int.bmod_eq_bmod_iff_bmod_sub_eq_zero]
  exact Int.bmod_eq_zero_of_dvd ⟨-1, by omega⟩

/-- Just above `maxInt64` the value wraps to the negative side. -/
theorem int64_of_ge {x : Int} (h₁ : 2 ^ 63 ≤ x) (h₂ : x < 2 ^ 64 + 2 ^ 63) :
    int64 x = x - 2 ^ 64 := by
  rw [← int64_sub_two_pow, int64_of_le (by omega) (by omega)]

theorem int64_lt (x : Int) : int64 x < 2 ^ 63 := by
  have h := Int.bmod_lt (x := x) (m := 2 ^ 64) (by omega)
  unfold int64
  omega

theorem le_int64 (x : Int) : -2 ^ 63 ≤ int64 x := by
  have h := Int.le_bmod (x := x) (m := 2 ^ 64) (by omega)
  unfold int64
  omega

@[simp] theorem uint64_of_lt {x : Nat} (h : x < 2 ^ 64) : uint64 x = x := Nat.mod_eq_of_lt h

theorem subUint64_of_le {a b : Nat} (hb : b ≤ a) (ha : a < 2 ^ 64) : subUint64 a b = a - b := by
  rw [subUint64, uint64, show a + 2 ^ 64 - b = a - b + 2 ^ 64 by omega, Nat.add_mod_right,
    Nat.mod_eq_of_lt (by omega)]

@[simp] theorem uint32_of_lt {x : Nat} (h : x < 2 ^ 32) : uint32 x = x := Nat.mod_eq_of_lt h

/-- `int64(u)` of a `uint64` below `2 ^ 63` is `u` itself. -/
theorem int64_natCast_of_lt {u : Nat} (h : u < 2 ^ 63) : int64 (u : Int) = u :=
  int64_of_le (by omega) (by omega)

/-- `int64(u)` of a `uint64` at or above `2 ^ 63` is the negative `u - 2 ^ 64`. -/
theorem int64_natCast_of_ge {u : Nat} (h₁ : 2 ^ 63 ≤ u) (h₂ : u < 2 ^ 64) :
    int64 (u : Int) = u - 2 ^ 64 := by
  unfold int64 Int.bmod
  dsimp only
  have hm : (u : Int) % ((2 ^ 64 : Nat) : Int) = u := Int.emod_eq_of_lt (by omega) (by omega)
  rw [hm, if_neg (by omega)]
  omega

end GoInt
