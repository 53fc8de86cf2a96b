import KuskCore.GoInt

/-!
# Checked arithmetic

`math/checked`: additions, subtractions, multiplications, divisions, remainders, negations and left
shifts that report an overflow instead of wrapping. Go returns a pair `(result, ok)`; here `none`
is `ok = false` and `some r` is `(r, true)`.

The four widths of the source, `int64`, `int32`, `uint64` and `uint32`, repeat one body each, so
each operation is one definition over a `SignedWidth` or an `UnsignedWidth` and each of the
source's functions is that definition at its own width. Each guard is the source's, with Go's
truncating division `Int.tdiv` where the source divides two signed integers and Go's arithmetic
shift as the floor division `/ 2 ^ b`. The result is what Go computes in the fixed width: the
mathematical value under the width's wrap.

`signedExact` and `unsignedExact` say what the functions are for: each succeeds exactly when the
mathematical result fits the width, and then returns it (`SignedExact`, `UnsignedExact`).
-/

namespace KuskCore.Checked

open GoInt

/-! ## Widths -/

/-- A signed Go integer type of `bits` bits. -/
structure SignedWidth where
  bits : Nat
  bits_pos : 0 < bits

/-- An unsigned Go integer type of `bits` bits. -/
structure UnsignedWidth where
  bits : Nat

namespace SignedWidth

variable (W : SignedWidth)

/-- `math.MinIntW`. -/
def min : Int := -2 ^ (W.bits - 1)

/-- `math.MaxIntW`. -/
def max : Int := 2 ^ (W.bits - 1) - 1

/-- The value Go stores for the mathematical `x`: two's complement modulo `2 ^ bits`. -/
def wrap (x : Int) : Int := x.bmod (2 ^ W.bits)

/-- The values of the type. -/
def InRange (x : Int) : Prop := W.min ≤ x ∧ x ≤ W.max

instance (x : Int) : Decidable (W.InRange x) := inferInstanceAs (Decidable (_ ∧ _))

theorem max_nonneg : 0 ≤ W.max := by
  have : (0 : Int) < 2 ^ (W.bits - 1) := Int.pow_pos (by decide)
  unfold max
  omega

theorem min_eq : W.min = -W.max - 1 := by
  unfold min max
  omega

theorem two_pow_bits : (2 : Int) ^ W.bits = 2 * 2 ^ (W.bits - 1) := by
  rw [← Int.pow_succ', Nat.sub_add_cancel W.bits_pos]

/-- The wrap does nothing to a value of the type. -/
theorem wrap_of_inRange {x : Int} (h : W.InRange x) : W.wrap x = x := by
  have hp := W.two_pow_bits
  have hn : ((2 ^ W.bits : Nat) : Int) = 2 ^ W.bits := by norm_cast
  unfold wrap
  unfold InRange min max at h
  apply Int.bmod_eq_of_le <;> rw [hn, hp] <;> omega

end SignedWidth

namespace UnsignedWidth

variable (W : UnsignedWidth)

/-- `math.MaxUintW`. -/
def max : Nat := 2 ^ W.bits - 1

/-- The low `bits` bits of `x`. -/
def wrap (x : Nat) : Nat := x % 2 ^ W.bits

/-- The values of the type. -/
def InRange (x : Nat) : Prop := x ≤ W.max

instance (x : Nat) : Decidable (W.InRange x) := inferInstanceAs (Decidable (_ ≤ _))

theorem inRange_iff {x : Nat} : W.InRange x ↔ x < 2 ^ W.bits := by
  have : 0 < 2 ^ W.bits := Nat.two_pow_pos _
  unfold InRange max
  omega

theorem wrap_of_inRange {x : Nat} (h : W.InRange x) : W.wrap x = x :=
  Nat.mod_eq_of_lt (W.inRange_iff.mp h)

end UnsignedWidth

def int64Width : SignedWidth := ⟨64, Nat.succ_pos 63⟩
def int32Width : SignedWidth := ⟨32, Nat.succ_pos 31⟩
def uint64Width : UnsignedWidth := ⟨64⟩
def uint32Width : UnsignedWidth := ⟨32⟩

@[simp] theorem int64Width_min : int64Width.min = minInt64 := rfl
@[simp] theorem int64Width_max : int64Width.max = maxInt64 := rfl
@[simp] theorem int64Width_wrap (x : Int) : int64Width.wrap x = int64 x := rfl
@[simp] theorem uint32Width_max : uint32Width.max = maxUint32 := rfl
@[simp] theorem uint32Width_wrap (x : Nat) : uint32Width.wrap x = uint32 x := rfl

/-! ## The operations, once per signedness -/

section Signed

variable (W : SignedWidth)

/-- `AddIntW`. -/
def addSigned (a b : Int) : Option Int :=
  if (b > 0 ∧ a > W.max - b) ∨ (b < 0 ∧ a < W.min - b) then none else some (W.wrap (a + b))

/-- `SubIntW`. -/
def subSigned (a b : Int) : Option Int :=
  if (b > 0 ∧ a < W.min + b) ∨ (b < 0 ∧ a > W.max + b) then none else some (W.wrap (a - b))

/-- `MulIntW`: four sign cases, each bounded by a truncating division. -/
def mulSigned (a b : Int) : Option Int :=
  if (a > 0 ∧ b > 0 ∧ a > W.max.tdiv b) ∨ (a > 0 ∧ b ≤ 0 ∧ b < W.min.tdiv a) ∨
      (a ≤ 0 ∧ b > 0 ∧ a < W.min.tdiv b) ∨ (a < 0 ∧ b ≤ 0 ∧ b < W.max.tdiv a) then none
  else some (W.wrap (a * b))

/-- `DivIntW`: Go's `/` truncates, and wraps `MinIntW / -1` back to `MinIntW`. -/
def divSigned (a b : Int) : Option Int :=
  if b = 0 ∨ (a = W.min ∧ b = -1) then none else some (W.wrap (a.tdiv b))

/-- `ModIntW`: Go's `%` is the truncating remainder, which never overflows. -/
def modSigned (a b : Int) : Option Int :=
  if b = 0 ∨ (a = W.min ∧ b = -1) then none else some (a.tmod b)

/-- `NegateIntW`. -/
def negateSigned (a : Int) : Option Int :=
  if a = W.min then none else some (W.wrap (-a))

/-- `LshiftIntW`: `MaxIntW >> b` and `MinIntW >> b` are arithmetic shifts. -/
def lshiftSigned (a b : Int) : Option Int :=
  if b < 0 ∨ b ≥ W.bits then none
  else if (a ≥ 0 ∧ a > W.max / 2 ^ b.toNat) ∨ (a < 0 ∧ a < W.min / 2 ^ b.toNat) then none
  else some (W.wrap (a * 2 ^ b.toNat))

end Signed

section Unsigned

variable (W : UnsignedWidth)

/-- `AddUintW`. -/
def addUnsigned (a b : Nat) : Option Nat :=
  if W.max - a < b then none else some (W.wrap (a + b))

/-- `SubUintW`; Go's `a - b` wraps below zero. -/
def subUnsigned (a b : Nat) : Option Nat :=
  if a < b then none else some (W.wrap (a + 2 ^ W.bits - b))

/-- `MulUintW`. -/
def mulUnsigned (a b : Nat) : Option Nat :=
  if b > 0 ∧ a > W.max / b then none else some (W.wrap (a * b))

/-- `DivUintW`. -/
def divUnsigned (a b : Nat) : Option Nat :=
  if b = 0 then none else some (a / b)

/-- `ModUintW`. -/
def modUnsigned (a b : Nat) : Option Nat :=
  if b = 0 then none else some (a % b)

/-- `LshiftUintW`. -/
def lshiftUnsigned (a b : Nat) : Option Nat :=
  if b ≥ W.bits then none
  else if a > W.max / 2 ^ b then none
  else some (W.wrap (a * 2 ^ b))

end Unsigned

/-! ## Exactness

Each operation succeeds exactly when the mathematical result lies in the width, and then returns
it: the guard is the overflow test, and the wrap then does nothing. -/

section SignedExactness

variable {W : SignedWidth} {a b r : Int}

/-- `x.tdiv d < y` for a non-negative `x` and a positive `d`: the bound of `MulIntW`'s first case. -/
private theorem tdiv_lt_iff {x d y : Int} (hx : 0 ≤ x) (hd : 0 < d) : x.tdiv d < y ↔ x < y * d := by
  rw [Int.tdiv_eq_ediv_of_nonneg hx]
  exact Int.ediv_lt_iff_lt_mul hd

/-- `y < x.tdiv d` for a non-positive `x` and a positive `d`: Go truncates towards zero. -/
private theorem lt_tdiv_iff_of_nonpos {x d y : Int} (hx : x ≤ 0) (hd : 0 < d) :
    y < x.tdiv d ↔ y * d < x := by
  have h : x.tdiv d = -((-x).tdiv d) := by rw [Int.neg_tdiv, Int.neg_neg]
  have hq := tdiv_lt_iff (x := -x) (y := -y) (by omega) hd
  rw [h, Int.neg_mul] at *
  constructor
  · intro h'
    have := hq.mp (by omega)
    omega
  · intro h'
    have := hq.mpr (by omega)
    omega

/-- `y < x.tdiv d` for a non-negative `x` and a negative `d`. -/
private theorem lt_tdiv_iff_of_neg {x d y : Int} (hx : 0 ≤ x) (hd : d < 0) :
    y < x.tdiv d ↔ x < y * d := by
  have h : x.tdiv d = -(x.tdiv (-d)) := by rw [← Int.tdiv_neg, Int.neg_neg]
  have hq := tdiv_lt_iff (y := -y) hx (show 0 < -d by omega)
  rw [h, Int.neg_mul_neg] at *
  constructor
  · intro h'
    have := hq.mp (by omega)
    omega
  · intro h'
    have := hq.mpr (by omega)
    omega

/-- A result that fits is returned as it is. -/
private theorem some_wrap_iff {x : Int} (hx : W.InRange x) : some (W.wrap x) = some r ↔ r = x := by
  rw [W.wrap_of_inRange hx, Option.some.injEq, eq_comm]

theorem addSigned_eq_some_iff (ha : W.InRange a) :
    addSigned W a b = some r ↔ W.InRange (a + b) ∧ r = a + b := by
  unfold addSigned
  unfold SignedWidth.InRange at ha
  split
  · rename_i hg
    have : ¬ W.InRange (a + b) := by unfold SignedWidth.InRange; omega
    simp only [reduceCtorEq, this, false_and]
  · rename_i hg
    have hs : W.InRange (a + b) := by unfold SignedWidth.InRange; omega
    rw [some_wrap_iff hs]
    exact ⟨fun h => ⟨hs, h⟩, And.right⟩

theorem subSigned_eq_some_iff (ha : W.InRange a) :
    subSigned W a b = some r ↔ W.InRange (a - b) ∧ r = a - b := by
  unfold subSigned
  unfold SignedWidth.InRange at ha
  split
  · rename_i hg
    have : ¬ W.InRange (a - b) := by unfold SignedWidth.InRange; omega
    simp only [reduceCtorEq, this, false_and]
  · rename_i hg
    have hs : W.InRange (a - b) := by unfold SignedWidth.InRange; omega
    rw [some_wrap_iff hs]
    exact ⟨fun h => ⟨hs, h⟩, And.right⟩

/-- The guard of `MulIntW` holds exactly when the product leaves the width. Each of the four cases
fixes the product's sign, so that only one of its bounds can fail, and that one is the case's
truncating division. -/
theorem mulSigned_guard_iff :
    ((a > 0 ∧ b > 0 ∧ a > W.max.tdiv b) ∨ (a > 0 ∧ b ≤ 0 ∧ b < W.min.tdiv a) ∨
      (a ≤ 0 ∧ b > 0 ∧ a < W.min.tdiv b) ∨ (a < 0 ∧ b ≤ 0 ∧ b < W.max.tdiv a)) ↔
      ¬ W.InRange (a * b) := by
  have hmax := W.max_nonneg
  have hmin := W.min_eq
  unfold SignedWidth.InRange
  rcases Int.lt_or_le 0 a with ha₀ | ha₀ <;> rcases Int.lt_or_le 0 b with hb₀ | hb₀
  · -- both positive: only the upper bound can fail
    have hp := Int.mul_pos ha₀ hb₀
    have key : a > W.max.tdiv b ↔ W.max < a * b := tdiv_lt_iff hmax hb₀
    constructor
    · rintro (⟨-, -, h⟩ | ⟨-, h, -⟩ | ⟨h, -⟩ | ⟨h, -⟩)
      · have := key.mp h
        omega
      all_goals omega
    · intro h
      exact .inl ⟨ha₀, hb₀, key.mpr (by omega)⟩
  · -- a positive, b not: only the lower bound can fail
    have hp := Int.mul_nonpos_of_nonneg_of_nonpos (Int.le_of_lt ha₀) hb₀
    have key : b < W.min.tdiv a ↔ a * b < W.min := by
      rw [lt_tdiv_iff_of_nonpos (by omega) ha₀, Int.mul_comm]
    constructor
    · rintro (⟨-, h, -⟩ | ⟨-, -, h⟩ | ⟨h, -⟩ | ⟨h, -⟩)
      · omega
      · have := key.mp h
        omega
      all_goals omega
    · intro h
      exact .inr (.inl ⟨ha₀, hb₀, key.mpr (by omega)⟩)
  · -- b positive, a not: only the lower bound can fail
    have hp : a * b ≤ 0 := by
      rw [Int.mul_comm]
      exact Int.mul_nonpos_of_nonneg_of_nonpos (Int.le_of_lt hb₀) ha₀
    have key : a < W.min.tdiv b ↔ a * b < W.min := lt_tdiv_iff_of_nonpos (by omega) hb₀
    constructor
    · rintro (⟨h, -⟩ | ⟨h, -⟩ | ⟨-, -, h⟩ | ⟨-, h, -⟩)
      · omega
      · omega
      · have := key.mp h
        omega
      · omega
    · intro h
      exact .inr (.inr (.inl ⟨ha₀, hb₀, key.mpr (by omega)⟩))
  · -- both non-positive: only the upper bound can fail, and only for a negative a
    have hp := Int.mul_nonneg_of_nonpos_of_nonpos ha₀ hb₀
    rcases Int.lt_or_le a 0 with ha₁ | ha₁
    · have key : b < W.max.tdiv a ↔ W.max < a * b := by
        rw [lt_tdiv_iff_of_neg hmax ha₁, Int.mul_comm]
      constructor
      · rintro (⟨h, -⟩ | ⟨h, -⟩ | ⟨-, h, -⟩ | ⟨-, -, h⟩)
        · omega
        · omega
        · omega
        · have := key.mp h
          omega
      · intro h
        exact .inr (.inr (.inr ⟨ha₁, hb₀, key.mpr (by omega)⟩))
    · have : a = 0 := by omega
      subst this
      constructor
      · rintro (⟨h, -⟩ | ⟨h, -⟩ | ⟨-, h, -⟩ | ⟨h, -⟩) <;> omega
      · intro h
        exact absurd ⟨by omega, by omega⟩ h

theorem mulSigned_eq_some_iff :
    mulSigned W a b = some r ↔ W.InRange (a * b) ∧ r = a * b := by
  have hg := mulSigned_guard_iff (W := W) (a := a) (b := b)
  unfold mulSigned
  split
  · rename_i h
    simp only [reduceCtorEq, hg.mp h, false_and]
  · rename_i h
    have hs : W.InRange (a * b) := Decidable.of_not_not (mt hg.mpr h)
    rw [some_wrap_iff hs]
    exact ⟨fun h => ⟨hs, h⟩, And.right⟩

/-- The truncated quotient of two values fits, except `MinIntW / -1`. -/
theorem tdiv_inRange (ha : W.InRange a) (hb : b ≠ 0) (hx : ¬ (a = W.min ∧ b = -1)) :
    W.InRange (a.tdiv b) := by
  have hmin := W.min_eq
  have hmax := W.max_nonneg
  unfold SignedWidth.InRange at *
  have hn := Int.natAbs_tdiv a b
  rcases Int.lt_or_gt_of_ne hb with hb | hb
  · by_cases hb1 : b = -1
    · subst hb1
      rw [Int.tdiv_neg, Int.tdiv_one]
      omega
    · -- a divisor of absolute value at least two halves the dividend
      have h2 : (a.tdiv b).natAbs ≤ a.natAbs / 2 := by
        rw [hn]
        exact Nat.div_le_div_left (by omega) (by decide)
      omega
  · rcases Int.le_total 0 a with h0 | h0
    · have := Int.tdiv_nonneg h0 (Int.le_of_lt hb)
      have h2 : (a.tdiv b).natAbs ≤ a.natAbs := by rw [hn]; exact Nat.div_le_self _ _
      omega
    · have h1 : a.tdiv b = -((-a).tdiv b) := by rw [Int.neg_tdiv, Int.neg_neg]
      have := Int.tdiv_nonneg (Int.neg_nonneg_of_nonpos h0) (Int.le_of_lt hb)
      have h2 : (a.tdiv b).natAbs ≤ a.natAbs := by rw [hn]; exact Nat.div_le_self _ _
      omega

theorem divSigned_eq_some_iff (ha : W.InRange a) :
    divSigned W a b = some r ↔ (b ≠ 0 ∧ ¬ (a = W.min ∧ b = -1)) ∧ r = a.tdiv b := by
  unfold divSigned
  split
  · rename_i h
    simp only [reduceCtorEq, false_iff]
    rintro ⟨⟨hb, hx⟩, -⟩
    rcases h with h | h
    · exact hb h
    · exact hx h
  · rename_i h
    have hb : b ≠ 0 := fun h' => h (.inl h')
    have hx : ¬ (a = W.min ∧ b = -1) := fun h' => h (.inr h')
    rw [some_wrap_iff (tdiv_inRange ha hb hx)]
    exact ⟨fun h => ⟨⟨hb, hx⟩, h⟩, And.right⟩

theorem modSigned_eq_some_iff :
    modSigned W a b = some r ↔ (b ≠ 0 ∧ ¬ (a = W.min ∧ b = -1)) ∧ r = a.tmod b := by
  unfold modSigned
  split
  · rename_i h
    simp only [reduceCtorEq, false_iff]
    rintro ⟨⟨hb, hx⟩, -⟩
    rcases h with h | h
    · exact hb h
    · exact hx h
  · rename_i h
    rw [Option.some.injEq, eq_comm]
    exact ⟨fun h' => ⟨⟨fun h'' => h (.inl h''), fun h'' => h (.inr h'')⟩, h'⟩, And.right⟩

theorem negateSigned_eq_some_iff (ha : W.InRange a) :
    negateSigned W a = some r ↔ a ≠ W.min ∧ r = -a := by
  have hmin := W.min_eq
  unfold negateSigned
  split
  · rename_i h
    simp only [reduceCtorEq, false_iff]
    rintro ⟨h', -⟩
    exact h' h
  · rename_i h
    have hs : W.InRange (-a) := by unfold SignedWidth.InRange at *; omega
    rw [some_wrap_iff hs]
    exact ⟨fun h' => ⟨h, h'⟩, And.right⟩

/-- For a shift below the width, `MinIntW` is a multiple of `2 ^ b`, so its arithmetic shift is
exact and the lower bound of the shifted value is the bound of `a`. -/
theorem lshiftSigned_guard_iff {b : Nat} (hb : b < W.bits) :
    ((a ≥ 0 ∧ a > W.max / 2 ^ b) ∨ (a < 0 ∧ a < W.min / 2 ^ b)) ↔ ¬ W.InRange (a * 2 ^ b) := by
  have hmin := W.min_eq
  have hmax := W.max_nonneg
  have hd : (0 : Int) < 2 ^ b := Int.pow_pos (by decide)
  have hdvd : (2 : Int) ^ b ∣ W.min :=
    ⟨-2 ^ (W.bits - 1 - b), by
      rw [SignedWidth.min, Int.mul_neg, ← Int.pow_add, Nat.add_sub_cancel' (by omega)]⟩
  unfold SignedWidth.InRange
  rcases Int.lt_or_le a 0 with ha₀ | ha₀
  · have hp : a * 2 ^ b < 0 := Int.mul_neg_of_neg_of_pos ha₀ hd
    have key : a < W.min / 2 ^ b ↔ a * 2 ^ b < W.min := Int.lt_ediv_iff_mul_lt hd hdvd
    constructor
    · rintro (⟨h, -⟩ | ⟨-, h⟩)
      · omega
      · have := key.mp h
        omega
    · intro h
      exact .inr ⟨ha₀, key.mpr (by omega)⟩
  · have hp := Int.mul_nonneg ha₀ (Int.le_of_lt hd)
    have key : a > W.max / 2 ^ b ↔ W.max < a * 2 ^ b := Int.ediv_lt_iff_lt_mul hd
    constructor
    · rintro (⟨-, h⟩ | ⟨h, -⟩)
      · have := key.mp h
        omega
      · omega
    · intro h
      exact .inl ⟨ha₀, key.mpr (by omega)⟩

theorem lshiftSigned_eq_some_iff :
    lshiftSigned W a b = some r ↔
      (0 ≤ b ∧ b < W.bits ∧ W.InRange (a * 2 ^ b.toNat)) ∧ r = a * 2 ^ b.toNat := by
  unfold lshiftSigned
  split
  · rename_i h
    simp only [reduceCtorEq, false_iff]
    rintro ⟨⟨h₀, h₁, -⟩, -⟩
    omega
  · rename_i h
    have hb : b.toNat < W.bits := by omega
    have hg := lshiftSigned_guard_iff (a := a) hb
    split
    · rename_i h'
      simp only [reduceCtorEq, false_iff]
      rintro ⟨⟨-, -, hs⟩, -⟩
      exact hg.mp h' hs
    · rename_i h'
      have hs : W.InRange (a * 2 ^ b.toNat) := Decidable.of_not_not (mt hg.mpr h')
      rw [some_wrap_iff hs]
      exact ⟨fun h'' => ⟨⟨by omega, by omega, hs⟩, h''⟩, And.right⟩

end SignedExactness

section UnsignedExactness

variable {W : UnsignedWidth} {a b r : Nat}

private theorem some_wrapU_iff {x : Nat} (hx : W.InRange x) : some (W.wrap x) = some r ↔ r = x := by
  rw [W.wrap_of_inRange hx, Option.some.injEq, eq_comm]

theorem addUnsigned_eq_some_iff (ha : W.InRange a) :
    addUnsigned W a b = some r ↔ W.InRange (a + b) ∧ r = a + b := by
  unfold addUnsigned
  unfold UnsignedWidth.InRange at *
  split
  · simp only [reduceCtorEq, false_iff, not_and]
    intro h
    omega
  · have hs : W.InRange (a + b) := by unfold UnsignedWidth.InRange; omega
    rw [some_wrapU_iff hs]
    exact ⟨fun h => ⟨hs, h⟩, And.right⟩

theorem subUnsigned_eq_some_iff (ha : W.InRange a) :
    subUnsigned W a b = some r ↔ b ≤ a ∧ r = a - b := by
  have hm := W.inRange_iff.mp ha
  unfold subUnsigned UnsignedWidth.wrap
  split
  · simp only [reduceCtorEq, false_iff, not_and]
    intro h
    omega
  · -- Go's wrapping difference is the exact one once `b ≤ a`
    rw [show a + 2 ^ W.bits - b = a - b + 2 ^ W.bits by omega, Nat.add_mod_right,
      Nat.mod_eq_of_lt (by omega), Option.some.injEq, eq_comm]
    exact ⟨fun h => ⟨by omega, h⟩, And.right⟩

theorem mulUnsigned_eq_some_iff :
    mulUnsigned W a b = some r ↔ W.InRange (a * b) ∧ r = a * b := by
  unfold mulUnsigned
  split
  · rename_i h
    obtain ⟨hb, h⟩ := h
    have := (Nat.div_lt_iff_lt_mul hb).mp h
    simp only [reduceCtorEq, false_iff]
    rintro ⟨hs, -⟩
    unfold UnsignedWidth.InRange at hs
    omega
  · rename_i h
    have hs : W.InRange (a * b) := by
      unfold UnsignedWidth.InRange
      rcases Nat.eq_zero_or_pos b with hb | hb
      · subst hb
        simp
      · have := mt (Nat.div_lt_iff_lt_mul hb).mpr fun h' => h ⟨hb, h'⟩
        omega
    rw [some_wrapU_iff hs]
    exact ⟨fun h => ⟨hs, h⟩, And.right⟩

theorem divUnsigned_eq_some_iff : divUnsigned a b = some r ↔ b ≠ 0 ∧ r = a / b := by
  unfold divUnsigned
  split <;> simp_all [eq_comm]

theorem modUnsigned_eq_some_iff : modUnsigned a b = some r ↔ b ≠ 0 ∧ r = a % b := by
  unfold modUnsigned
  split <;> simp_all [eq_comm]

theorem lshiftUnsigned_eq_some_iff :
    lshiftUnsigned W a b = some r ↔ (b < W.bits ∧ W.InRange (a * 2 ^ b)) ∧ r = a * 2 ^ b := by
  have hd : 0 < 2 ^ b := Nat.two_pow_pos b
  unfold lshiftUnsigned
  split
  · simp only [reduceCtorEq, false_iff, not_and]
    intro h
    omega
  · split
    · rename_i h
      have := (Nat.div_lt_iff_lt_mul hd).mp h
      simp only [reduceCtorEq, false_iff]
      rintro ⟨⟨-, hs⟩, -⟩
      unfold UnsignedWidth.InRange at hs
      omega
    · rename_i hb h
      have := mt (Nat.div_lt_iff_lt_mul hd).mpr h
      have hs : W.InRange (a * 2 ^ b) := by unfold UnsignedWidth.InRange; omega
      rw [some_wrapU_iff hs]
      exact ⟨fun h' => ⟨⟨by omega, hs⟩, h'⟩, And.right⟩

end UnsignedExactness

/-! ## The source's functions -/

/-- `AddInt64`. -/
def addInt64 (a b : Int) : Option Int := addSigned int64Width a b
/-- `SubInt64`. -/
def subInt64 (a b : Int) : Option Int := subSigned int64Width a b
/-- `MulInt64`. -/
def mulInt64 (a b : Int) : Option Int := mulSigned int64Width a b
/-- `DivInt64`. -/
def divInt64 (a b : Int) : Option Int := divSigned int64Width a b
/-- `ModInt64`. -/
def modInt64 (a b : Int) : Option Int := modSigned int64Width a b
/-- `NegateInt64`. -/
def negateInt64 (a : Int) : Option Int := negateSigned int64Width a
/-- `LshiftInt64`. -/
def lshiftInt64 (a b : Int) : Option Int := lshiftSigned int64Width a b

/-- `AddInt32`. -/
def addInt32 (a b : Int) : Option Int := addSigned int32Width a b
/-- `SubInt32`. -/
def subInt32 (a b : Int) : Option Int := subSigned int32Width a b
/-- `MulInt32`. -/
def mulInt32 (a b : Int) : Option Int := mulSigned int32Width a b
/-- `DivInt32`. -/
def divInt32 (a b : Int) : Option Int := divSigned int32Width a b
/-- `ModInt32`. -/
def modInt32 (a b : Int) : Option Int := modSigned int32Width a b
/-- `NegateInt32`. -/
def negateInt32 (a : Int) : Option Int := negateSigned int32Width a
/-- `LshiftInt32`. -/
def lshiftInt32 (a b : Int) : Option Int := lshiftSigned int32Width a b

/-- `AddUint64`. -/
def addUint64 (a b : Nat) : Option Nat := addUnsigned uint64Width a b
/-- `SubUint64`. -/
def subUint64 (a b : Nat) : Option Nat := subUnsigned uint64Width a b
/-- `MulUint64`. -/
def mulUint64 (a b : Nat) : Option Nat := mulUnsigned uint64Width a b
/-- `DivUint64`. -/
def divUint64 (a b : Nat) : Option Nat := divUnsigned a b
/-- `ModUint64`. -/
def modUint64 (a b : Nat) : Option Nat := modUnsigned a b
/-- `LshiftUint64`. -/
def lshiftUint64 (a b : Nat) : Option Nat := lshiftUnsigned uint64Width a b

/-- `AddUint32`. -/
def addUint32 (a b : Nat) : Option Nat := addUnsigned uint32Width a b
/-- `SubUint32`. -/
def subUint32 (a b : Nat) : Option Nat := subUnsigned uint32Width a b
/-- `MulUint32`. -/
def mulUint32 (a b : Nat) : Option Nat := mulUnsigned uint32Width a b
/-- `DivUint32`. -/
def divUint32 (a b : Nat) : Option Nat := divUnsigned a b
/-- `ModUint32`. -/
def modUint32 (a b : Nat) : Option Nat := modUnsigned a b
/-- `LshiftUint32`. -/
def lshiftUint32 (a b : Nat) : Option Nat := lshiftUnsigned uint32Width a b

/-! ## What checked arithmetic is for -/

/-- Checked arithmetic on a signed width: every operation on values of the width succeeds exactly
when the mathematical result lies in the width, and returns it; a division or a remainder also
refuses a zero divisor and `MinIntW / -1`. -/
structure SignedExact (W : SignedWidth) (add sub mul div mod : Int → Int → Option Int)
    (negate : Int → Option Int) (lshift : Int → Int → Option Int) : Prop where
  add : ∀ {a b r}, W.InRange a → W.InRange b →
    (add a b = some r ↔ W.InRange (a + b) ∧ r = a + b)
  sub : ∀ {a b r}, W.InRange a → W.InRange b →
    (sub a b = some r ↔ W.InRange (a - b) ∧ r = a - b)
  mul : ∀ {a b r}, W.InRange a → W.InRange b →
    (mul a b = some r ↔ W.InRange (a * b) ∧ r = a * b)
  div : ∀ {a b r}, W.InRange a → W.InRange b →
    (div a b = some r ↔ (b ≠ 0 ∧ ¬ (a = W.min ∧ b = -1)) ∧ r = a.tdiv b)
  mod : ∀ {a b r}, W.InRange a → W.InRange b →
    (mod a b = some r ↔ (b ≠ 0 ∧ ¬ (a = W.min ∧ b = -1)) ∧ r = a.tmod b)
  negate : ∀ {a r}, W.InRange a → (negate a = some r ↔ a ≠ W.min ∧ r = -a)
  lshift : ∀ {a b r}, W.InRange a → W.InRange b →
    (lshift a b = some r ↔ (0 ≤ b ∧ b < W.bits ∧ W.InRange (a * 2 ^ b.toNat)) ∧ r = a * 2 ^ b.toNat)

/-- Checked arithmetic on an unsigned width, in the same sense. -/
structure UnsignedExact (W : UnsignedWidth) (add sub mul div mod lshift : Nat → Nat → Option Nat) :
    Prop where
  add : ∀ {a b r}, W.InRange a → W.InRange b →
    (add a b = some r ↔ W.InRange (a + b) ∧ r = a + b)
  sub : ∀ {a b r}, W.InRange a → W.InRange b → (sub a b = some r ↔ b ≤ a ∧ r = a - b)
  mul : ∀ {a b r}, W.InRange a → W.InRange b →
    (mul a b = some r ↔ W.InRange (a * b) ∧ r = a * b)
  div : ∀ {a b r}, W.InRange a → W.InRange b → (div a b = some r ↔ b ≠ 0 ∧ r = a / b)
  mod : ∀ {a b r}, W.InRange a → W.InRange b → (mod a b = some r ↔ b ≠ 0 ∧ r = a % b)
  lshift : ∀ {a b r}, W.InRange a → W.InRange b →
    (lshift a b = some r ↔ (b < W.bits ∧ W.InRange (a * 2 ^ b)) ∧ r = a * 2 ^ b)

theorem signedExact (W : SignedWidth) :
    SignedExact W (addSigned W) (subSigned W) (mulSigned W) (divSigned W) (modSigned W)
      (negateSigned W) (lshiftSigned W) where
  add ha _ := addSigned_eq_some_iff ha
  sub ha _ := subSigned_eq_some_iff ha
  mul _ _ := mulSigned_eq_some_iff
  div ha _ := divSigned_eq_some_iff ha
  mod _ _ := modSigned_eq_some_iff
  negate ha := negateSigned_eq_some_iff ha
  lshift _ _ := lshiftSigned_eq_some_iff

theorem unsignedExact (W : UnsignedWidth) :
    UnsignedExact W (addUnsigned W) (subUnsigned W) (mulUnsigned W) divUnsigned modUnsigned
      (lshiftUnsigned W) where
  add ha _ := addUnsigned_eq_some_iff ha
  sub ha _ := subUnsigned_eq_some_iff ha
  mul _ _ := mulUnsigned_eq_some_iff
  div _ _ := divUnsigned_eq_some_iff
  mod _ _ := modUnsigned_eq_some_iff
  lshift _ _ := lshiftUnsigned_eq_some_iff

/-- Every function of `math/checked` is exact at its own width. -/
theorem checked_exact :
    SignedExact int64Width addInt64 subInt64 mulInt64 divInt64 modInt64 negateInt64 lshiftInt64 ∧
    SignedExact int32Width addInt32 subInt32 mulInt32 divInt32 modInt32 negateInt32 lshiftInt32 ∧
    UnsignedExact uint64Width addUint64 subUint64 mulUint64 divUint64 modUint64 lshiftUint64 ∧
    UnsignedExact uint32Width addUint32 subUint32 mulUint32 divUint32 modUint32 lshiftUint32 :=
  ⟨signedExact int64Width, signedExact int32Width, unsignedExact uint64Width,
    unsignedExact uint32Width⟩

/-- `MinInt64 * -1` is refused: the product `2 ^ 63` is one past `MaxInt64`. -/
example : mulInt64 minInt64 (-1) = none := by decide

/-! ## The uses elsewhere -/

theorem addInt64_eq_some {a b : Int} (h₁ : minInt64 ≤ a + b) (h₂ : a + b ≤ maxInt64) :
    addInt64 a b = some (a + b) := by
  have hs : int64Width.InRange (a + b) := ⟨h₁, h₂⟩
  unfold addInt64 addSigned
  rw [int64Width_max, int64Width_min, if_neg (by omega), int64Width.wrap_of_inRange hs]

/-- A checked `uint32` sum is the exact sum whenever it exists. -/
theorem addUint32_eq_some_iff {a b r : Nat} (ha : a ≤ maxUint32) :
    addUint32 a b = some r ↔ r = a + b ∧ a + b ≤ maxUint32 := by
  have ha' : uint32Width.InRange a := ha
  rw [addUint32, addUnsigned_eq_some_iff ha']
  exact ⟨fun ⟨h, h'⟩ => ⟨h', h⟩, fun ⟨h, h'⟩ => ⟨h', h⟩⟩

end KuskCore.Checked
