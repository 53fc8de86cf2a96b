import Mathlib
import KuskCore.Vm.Step
import KuskCore.Standard.Programs

/-!
# Number items and push data

`protocol/vm/types.go` and `pushdata.go`, against `ParseOp` and the step.

A number item is the little-endian base-256 digits of its number (`valueLE`, Mathlib's
`Nat.ofDigits 256`). `BigIntBytes` writes the digits without trailing zeros, so it is Mathlib's
`Nat.digits 256` of the number (`map_toNat_bigIntBytes`), and two items without a trailing zero
that stand for one number are equal (`eq_of_valueLE_eq`). From there `AsBigInt` and
`BigIntBytes` are inverse on the numbers below `2 ^ 255` and on the trimmed items of at most 32
bytes (`vmNumber_roundTrip`).

`PushDataBytes d` followed by any bytes decodes at 0 to one instruction of its own length with
data `d`, whenever the program fits the `MaxInt32` bound `ParseOp` checks first
(`parseOp_pushDataBytes`). A program past that bound is refused with `ErrLongProgram` before the
push is read, whatever the push (`longPush_counterexample`). The one instruction of
`PushDataUint64 n` pushes `Uint64Bytes n`, which reads back as `n` (`pushData_roundTrip`).
-/

namespace KuskCore.Vm

open GoInt KuskCore.Checked

/-! ## Numbers as little-endian digits -/

/-- The number a little-endian item stands for: its bytes are base-256 digits, lowest first. -/
def valueLE (b : Bytes) : Nat := Nat.ofDigits 256 (b.map UInt8.toNat)

theorem valueLE_cons (x : UInt8) (b : Bytes) : valueLE (x :: b) = x.toNat + 256 * valueLE b := rfl

theorem valueLE_append (a b : Bytes) :
    valueLE (a ++ b) = valueLE a + 256 ^ a.length * valueLE b := by
  rw [valueLE, List.map_append, Nat.ofDigits_append, List.length_map]
  rfl

theorem toNat_lt_of_mem_map (b : Bytes) : ∀ d ∈ b.map UInt8.toNat, d < 256 := by
  intro d hd
  obtain ⟨x, -, rfl⟩ := List.mem_map.mp hd
  exact x.toNat_lt

theorem valueLE_lt (b : Bytes) : valueLE b < 256 ^ b.length := by
  have h := Nat.ofDigits_lt_base_pow_length (by decide : 1 < 256) (toNat_lt_of_mem_map b)
  rwa [List.length_map] at h

theorem valueLE_eq_zero {b : Bytes} (h : ∀ x ∈ b, x = 0) : valueLE b = 0 := by
  induction b with
  | nil => rfl
  | cons x b ih =>
    rw [valueLE_cons, h x List.mem_cons_self, ih fun y hy => h y (List.mem_cons_of_mem _ hy)]
    rfl

/-- Trailing zero bytes add nothing. -/
theorem valueLE_rdropWhile (b : Bytes) : valueLE (b.rdropWhile (· == 0)) = valueLE b := by
  have hzero : valueLE (b.rtakeWhile (· == 0)) = 0 := by
    apply valueLE_eq_zero
    intro x hx
    have hp : (x == 0) = true := List.mem_rtakeWhile_imp (p := fun y => y == 0) hx
    exact beq_iff_eq.mp hp
  conv_rhs => rw [← List.rdropWhile_append_rtakeWhile (p := (· == 0)) (l := b)]
  rw [valueLE_append, hzero, Nat.mul_zero, Nat.add_zero]

theorem getLast?_rdropWhile_ne (b : Bytes) : (b.rdropWhile (· == 0)).getLast? ≠ some 0 := by
  intro h
  have hne : b.rdropWhile (· == 0) ≠ [] := by
    intro hnil
    rw [hnil] at h
    cases h
  apply List.rdropWhile_last_not _ _ hne
  rw [List.getLast?_eq_some_getLast hne, Option.some.injEq] at h
  rw [h]
  rfl

/-- An item without a trailing zero byte is the base-256 digits of its number. -/
theorem digits_valueLE {b : Bytes} (hb : b.getLast? ≠ some 0) :
    Nat.digits 256 (valueLE b) = b.map UInt8.toNat := by
  apply Nat.digits_ofDigits 256 (by decide) _ (toNat_lt_of_mem_map b)
  intro hne hzero
  have hb' : b ≠ [] := fun hnil => hne (by rw [hnil]; rfl)
  rw [List.getLast_map] at hzero
  apply hb
  rw [List.getLast?_eq_some_getLast hb', Option.some.injEq]
  exact UInt8.toNat_inj.mp hzero

/-- Two items without a trailing zero byte that stand for one number are equal. -/
theorem eq_of_valueLE_eq {a b : Bytes} (ha : a.getLast? ≠ some 0) (hb : b.getLast? ≠ some 0)
    (h : valueLE a = valueLE b) : a = b := by
  have hmap : a.map UInt8.toNat = b.map UInt8.toNat := by
    rw [← digits_valueLE ha, ← digits_valueLE hb, h]
  exact (List.map_inj_right fun _ _ hxy => UInt8.toNat_inj.mp hxy).mp hmap

/-- `SetBytes` reads big-endian what `reverse` turned around. -/
theorem valueBE_reverse (b : Bytes) : valueBE b.reverse = valueLE b := by
  induction b with
  | nil => rfl
  | cons x b ih =>
    have hsnoc : valueBE (b.reverse ++ [x]) = 256 * valueBE b.reverse + x.toNat := by
      unfold valueBE
      rw [List.foldl_append]
      rfl
    rw [List.reverse_cons, hsnoc, ih, valueLE_cons]
    omega

/-! ## `BigIntBytes` and `AsBigInt` -/

/-- The 32 bytes of `Bytes32`, turned around, are the low 32 little-endian digits. -/
theorem valueLE_range_map (n : Nat) :
    ∀ k, valueLE ((List.range k).map fun i => UInt8.ofNat (n / 256 ^ i)) = n % 256 ^ k
  | 0 => by rw [List.range_zero, List.map_nil, Nat.pow_zero, Nat.mod_one]; rfl
  | k + 1 => by
    rw [List.range_succ, List.map_append, valueLE_append, valueLE_range_map n k, List.length_map,
      List.length_range, List.map_singleton, Nat.mod_pow_succ]
    have hdigit : valueLE [UInt8.ofNat (n / 256 ^ k)] = n / 256 ^ k % 256 := by
      rw [valueLE_cons, UInt8.toNat_ofNat']
      rfl
    rw [hdigit]

/-- `BigIntBytes`: the low 32 digits with the trailing zeros dropped. -/
theorem bigIntBytes_eq (n : Nat) :
    bigIntBytes n = ((List.range 32).map fun i => UInt8.ofNat (n / 256 ^ i)).rdropWhile (· == 0) := by
  rw [List.rdropWhile, ← List.map_reverse, ← bytes32]
  rfl

theorem valueLE_bigIntBytes (n : Nat) : valueLE (bigIntBytes n) = n % 256 ^ 32 := by
  rw [bigIntBytes_eq, valueLE_rdropWhile, valueLE_range_map]

theorem getLast?_bigIntBytes (n : Nat) : (bigIntBytes n).getLast? ≠ some 0 := by
  rw [bigIntBytes_eq]
  exact getLast?_rdropWhile_ne _

/-- `BigIntBytes` is Mathlib's base-256 digits of the number, modulo `2 ^ 256`. -/
theorem map_toNat_bigIntBytes (n : Nat) :
    (bigIntBytes n).map UInt8.toNat = Nat.digits 256 (n % 256 ^ 32) := by
  rw [← valueLE_bigIntBytes, digits_valueLE (getLast?_bigIntBytes n)]

theorem length_bigIntBytes_le_iff (n k : Nat) :
    (bigIntBytes n).length ≤ k ↔ n % 256 ^ 32 < 256 ^ k := by
  rw [← Nat.digits_length_le_iff (by decide), ← map_toNat_bigIntBytes, List.length_map]

/-- The trimmed item is what `BigIntBytes` writes for its number. -/
theorem bigIntBytes_valueLE {b : Bytes} (hb : b.length ≤ 32) :
    bigIntBytes (valueLE b) = b.rdropWhile (· == 0) := by
  have hlt : valueLE b < 256 ^ 32 :=
    lt_of_lt_of_le (valueLE_lt b) (Nat.pow_le_pow_right (by decide) hb)
  apply eq_of_valueLE_eq (getLast?_bigIntBytes _) (getLast?_rdropWhile_ne b)
  rw [valueLE_bigIntBytes, valueLE_rdropWhile, Nat.mod_eq_of_lt hlt]

/-- `AsBigInt` of an item of at most 32 bytes: its number, refused from `2 ^ 255` on. -/
theorem asBigInt_of_length_le {b : Bytes} (hb : b.length ≤ 32) :
    asBigInt b = if 2 ^ 255 ≤ valueLE b then .error .range else .ok (valueLE b) := by
  have hset : setBytes b.reverse = valueLE b := by
    rw [setBytes, List.length_reverse, Nat.sub_eq_zero_of_le hb, List.drop_zero, valueBE_reverse]
  have hsign : sign (valueLE b) < 0 ↔ 2 ^ 255 ≤ valueLE b := by
    unfold sign
    split_ifs <;> omega
  unfold asBigInt
  rw [if_neg (by omega)]
  dsimp only
  rw [hset]
  by_cases hv : 2 ^ 255 ≤ valueLE b
  · rw [if_pos (hsign.mpr hv), if_pos hv]
  · rw [if_neg (fun h => hv (hsign.mp h)), if_neg hv]

theorem asBigInt_bigIntBytes {n : Nat} (hn : n < 2 ^ 255) : asBigInt (bigIntBytes n) = .ok n := by
  have hmod : n % 256 ^ 32 = n := Nat.mod_eq_of_lt (by omega)
  have hlen : (bigIntBytes n).length ≤ 32 := (length_bigIntBytes_le_iff n 32).mpr (by omega)
  rw [asBigInt_of_length_le hlen, valueLE_bigIntBytes, hmod, if_neg (by omega)]

/-- The number codec of the VM: `BigIntBytes` writes the shortest item, which `AsBigInt` reads
back; an item of at most 32 bytes is refused exactly from `2 ^ 255` on, and otherwise written
back without its trailing zeros; and booleans read back. -/
theorem vmNumber_roundTrip :
    (∀ n < 2 ^ 255, asBigInt (bigIntBytes n) = .ok n ∧ (bigIntBytes n).getLast? ≠ some 0 ∧
      (bigIntBytes n = [] ↔ n = 0) ∧ (bigIntBytes n).length ≤ 32) ∧
    (∀ b : Bytes, b.length ≤ 32 →
      (asBigInt b = .error .range ↔ 2 ^ 255 ≤ valueLE b) ∧
      (valueLE b < 2 ^ 255 →
        asBigInt b = .ok (valueLE b) ∧ bigIntBytes (valueLE b) = b.rdropWhile (· == 0))) ∧
    ∀ p, asBool (boolBytes p) = p := by
  refine ⟨fun n hn => ?_, fun b hb => ?_, asBool_boolBytes⟩
  · have hmod : n % 256 ^ 32 = n := Nat.mod_eq_of_lt (by omega)
    refine ⟨asBigInt_bigIntBytes hn, getLast?_bigIntBytes n, ?_,
      (length_bigIntBytes_le_iff n 32).mpr (by omega)⟩
    constructor
    · intro hnil
      rw [← hmod, ← valueLE_bigIntBytes, hnil]
      rfl
    · rintro rfl
      rfl
  · rw [asBigInt_of_length_le hb]
    refine ⟨⟨fun h => ?_, fun h => if_pos h⟩, fun hlt => ⟨if_neg (by omega), bigIntBytes_valueLE hb⟩⟩
    by_contra hlt
    rw [if_neg hlt] at h
    cases h

/-! ## Push data -/

/-- The opcode `PushDataBytes` writes for data of length `l`. -/
def pushOpcode (l : Nat) : UInt8 :=
  if l = 0 then Op.op0
  else if l ≤ 75 then UInt8.ofNat l
  else if l < 2 ^ 8 then Op.pushdata1
  else if l < 2 ^ 16 then Op.pushdata2
  else Op.pushdata4

theorem length_leBytes (n : Nat) : ∀ k, (leBytes n k).length = k
  | 0 => rfl
  | k + 1 => by rw [leBytes, List.length_cons, length_leBytes (n / 256) k]

theorem leUint16_leBytes (n : Nat) : leUint16 (leBytes n 2) = n % 2 ^ 16 := by
  simp only [leUint16, leBytes, List.getD_cons_zero, List.getD_cons_succ, UInt8.toNat_ofNat']
  omega

theorem leUint32_leBytes (n : Nat) : leUint32 (leBytes n 4) = n % 2 ^ 32 := by
  simp only [leUint32, leBytes, List.getD_cons_zero, List.getD_cons_succ, UInt8.toNat_ofNat']
  omega

section PushData

variable {d r : Bytes}

/-- The data of a push sits after its header, whatever follows it. -/
theorem slice_header {hdr : Bytes} (k : Nat) (hk : hdr.length = k) :
    slice (hdr ++ d ++ r) (0 + k) (0 + k + d.length) = d :=
  slice_append_mid (by omega) (by omega) (by omega)

theorem parseOp_pushDataBytes_zero (h0 : d.length = 0) (hl : (pushDataBytes d ++ r).length ≤ maxInt32) :
    parseOp (pushDataBytes d ++ r) 0 = .ok ⟨pushOpcode d.length, (pushDataBytes d).length, d⟩ := by
  obtain rfl : d = [] := List.eq_nil_of_length_eq_zero h0
  exact parseOp_bare hl (by simp [pushDataBytes]) rfl (by decide)

theorem parseOp_pushDataBytes_data (h0 : d.length ≠ 0) (h75 : d.length ≤ 75)
    (hl : (pushDataBytes d ++ r).length ≤ maxInt32) :
    parseOp (pushDataBytes d ++ r) 0 = .ok ⟨pushOpcode d.length, (pushDataBytes d).length, d⟩ := by
  have hpush : pushDataBytes d = [UInt8.ofNat d.length] ++ d := pushDataBytes_of_le (by omega) h75
  have hn : (UInt8.ofNat d.length).toNat = d.length := by
    rw [UInt8.toNat_ofNat']
    omega
  have hop : pushOpcode d.length = UInt8.ofNat d.length := by
    rw [pushOpcode, if_neg h0, if_pos h75]
  have hprog : ([UInt8.ofNat d.length] ++ d ++ r).length = 1 + d.length + r.length := by
    rw [List.length_append, List.length_append, List.length_singleton]
  rw [hpush] at hl ⊢
  rw [parseOp_data hl (show ([UInt8.ofNat d.length] ++ d ++ r).getD 0 0 = UInt8.ofNat d.length from rfl)
    (by omega) (by omega) (by omega), hn, slice_header 1 rfl, hop, List.length_append,
    List.length_singleton]

theorem parseOp_pushDataBytes_pushdata1 (h75 : ¬ d.length ≤ 75) (h8 : d.length < 2 ^ 8)
    (hl : (pushDataBytes d ++ r).length ≤ maxInt32) :
    parseOp (pushDataBytes d ++ r) 0 = .ok ⟨pushOpcode d.length, (pushDataBytes d).length, d⟩ := by
  have hpush : pushDataBytes d = [Op.pushdata1, UInt8.ofNat d.length] ++ d := by
    unfold pushDataBytes
    rw [if_neg (by omega), if_neg h75, if_pos h8]
    rfl
  have hn : (UInt8.ofNat d.length).toNat = d.length := by
    rw [UInt8.toNat_ofNat']
    omega
  have hop : pushOpcode d.length = Op.pushdata1 := by
    rw [pushOpcode, if_neg (by omega), if_neg h75, if_pos h8]
  have hprog : ([Op.pushdata1, UInt8.ofNat d.length] ++ d ++ r).length = 2 + d.length + r.length := by
    rw [List.length_append, List.length_append]
    rfl
  rw [hpush] at hl ⊢
  rw [parseOp_pushdata1 hl rfl
    (show ([Op.pushdata1, UInt8.ofNat d.length] ++ d ++ r).getD (0 + 1) 0 = UInt8.ofNat d.length from rfl)
    (by omega), hn, slice_header 2 rfl, hop, List.length_append]
  rfl

theorem parseOp_pushDataBytes_pushdata2 (h8 : ¬ d.length < 2 ^ 8) (h16 : d.length < 2 ^ 16)
    (hl : (pushDataBytes d ++ r).length ≤ maxInt32) :
    parseOp (pushDataBytes d ++ r) 0 = .ok ⟨pushOpcode d.length, (pushDataBytes d).length, d⟩ := by
  have hpush : pushDataBytes d = (Op.pushdata2 :: leBytes d.length 2) ++ d := by
    unfold pushDataBytes
    rw [if_neg (by omega), if_neg (by omega), if_neg h8, if_pos h16]
  have hn : leUint16 (slice ((Op.pushdata2 :: leBytes d.length 2) ++ d ++ r) (0 + 1) (0 + 3)) =
      d.length := by
    have hsplit : (Op.pushdata2 :: leBytes d.length 2) ++ d ++ r =
        [Op.pushdata2] ++ leBytes d.length 2 ++ (d ++ r) := by
      simp
    rw [hsplit, @slice_append_mid [Op.pushdata2] (leBytes d.length 2) (d ++ r) (0 + 1) (0 + 3) rfl
      (by rw [length_leBytes]) (by omega), leUint16_leBytes, Nat.mod_eq_of_lt h16]
  have hop : pushOpcode d.length = Op.pushdata2 := by
    rw [pushOpcode, if_neg (by omega), if_neg (by omega), if_neg h8, if_pos h16]
  have hhdr : (Op.pushdata2 :: leBytes d.length 2).length = 3 := by
    rw [List.length_cons, length_leBytes]
  rw [hpush] at hl ⊢
  rw [parseOp_pushdata2 hl rfl hn (by simp only [List.length_append, hhdr] at hl ⊢; omega),
    slice_header 3 hhdr, hop, List.length_append, hhdr]

theorem parseOp_pushDataBytes_pushdata4 (h16 : ¬ d.length < 2 ^ 16)
    (hl : (pushDataBytes d ++ r).length ≤ maxInt32) :
    parseOp (pushDataBytes d ++ r) 0 = .ok ⟨pushOpcode d.length, (pushDataBytes d).length, d⟩ := by
  have hpush : pushDataBytes d = (Op.pushdata4 :: leBytes d.length 4) ++ d := by
    unfold pushDataBytes
    rw [if_neg (by omega), if_neg (by omega), if_neg (by omega), if_neg h16]
  have hhdr : (Op.pushdata4 :: leBytes d.length 4).length = 5 := by
    rw [List.length_cons, length_leBytes]
  rw [hpush] at hl ⊢
  have hlen : 5 + d.length + r.length ≤ maxInt32 := by
    simp only [List.length_append, hhdr] at hl
    exact hl
  have hn : leUint32 (slice ((Op.pushdata4 :: leBytes d.length 4) ++ d ++ r) (0 + 1) (0 + 5)) =
      d.length := by
    have hsplit : (Op.pushdata4 :: leBytes d.length 4) ++ d ++ r =
        [Op.pushdata4] ++ leBytes d.length 4 ++ (d ++ r) := by
      simp
    unfold maxInt32 at hlen
    rw [hsplit, @slice_append_mid [Op.pushdata4] (leBytes d.length 4) (d ++ r) (0 + 1) (0 + 5) rfl
      (by rw [length_leBytes]) (by omega), leUint32_leBytes, Nat.mod_eq_of_lt (by omega)]
  have hop : pushOpcode d.length = Op.pushdata4 := by
    rw [pushOpcode, if_neg (by omega), if_neg (by omega), if_neg (by omega), if_neg h16]
  rw [parseOp_pushdata4 hl rfl hn (by simp only [List.length_append, hhdr]; omega),
    slice_header 5 hhdr, hop, List.length_append, hhdr]

/-- `PushDataBytes d` followed by any bytes decodes at 0 to one instruction: the opcode
`PushDataBytes` chose, the header's and the data's length, and the data. -/
theorem parseOp_pushDataBytes (hl : (pushDataBytes d ++ r).length ≤ maxInt32) :
    parseOp (pushDataBytes d ++ r) 0 = .ok ⟨pushOpcode d.length, (pushDataBytes d).length, d⟩ := by
  -- one case per branch of PushDataBytes
  by_cases h0 : d.length = 0
  · exact parseOp_pushDataBytes_zero h0 hl
  by_cases h75 : d.length ≤ 75
  · exact parseOp_pushDataBytes_data h0 h75 hl
  by_cases h8 : d.length < 2 ^ 8
  · exact parseOp_pushDataBytes_pushdata1 h75 h8 hl
  by_cases h16 : d.length < 2 ^ 16
  · exact parseOp_pushDataBytes_pushdata2 h8 h16 hl
  · exact parseOp_pushDataBytes_pushdata4 h16 hl

end PushData

/-- `ParseOp` refuses a program past `MaxInt32` bytes before it reads the first opcode, so the
push of `2 ^ 31` bytes, whose length fits the `uint32` of `PushDataBytes`, does not decode. -/
theorem longPush_counterexample :
    (List.replicate (2 ^ 31) (0 : UInt8)).length < 2 ^ 32 ∧
      parseOp (pushDataBytes (List.replicate (2 ^ 31) 0) ++ []) 0 = .error .longProgram := by
  have hlen : (List.replicate (2 ^ 31) (0 : UInt8)).length = 2 ^ 31 := List.length_replicate
  have hpush : pushDataBytes (List.replicate (2 ^ 31) 0) =
      (Op.pushdata4 :: leBytes (2 ^ 31) 4) ++ List.replicate (2 ^ 31) 0 := by
    unfold pushDataBytes
    rw [hlen, if_neg (by norm_num), if_neg (by norm_num), if_neg (by norm_num), if_neg (by norm_num)]
  have hprog : (pushDataBytes (List.replicate (2 ^ 31) 0) ++ []).length = 2 ^ 31 + 5 := by
    rw [List.append_nil, hpush, List.length_append, List.length_cons, length_leBytes, hlen]
    norm_num
  refine ⟨by rw [hlen]; norm_num, ?_⟩
  unfold parseOp
  rw [hprog, uint32_of_lt (by norm_num), if_pos (by unfold maxInt32; norm_num)]

/-- One byte below 256 and not zero is its own shortest item. -/
theorem bigIntBytes_of_lt {n : Nat} (h₁ : 0 < n) (h₂ : n < 256) : bigIntBytes n = [UInt8.ofNat n] := by
  have hbyte : (UInt8.ofNat n).toNat = n := by
    rw [UInt8.toNat_ofNat']
    omega
  apply eq_of_valueLE_eq (getLast?_bigIntBytes n)
  · rw [List.getLast?_singleton, Ne, Option.some.injEq]
    intro h0
    rw [h0, UInt8.toNat_zero] at hbyte
    omega
  · rw [valueLE_bigIntBytes, valueLE_cons, hbyte, Nat.mod_eq_of_lt (by omega)]
    rfl

/-- The single instruction of `PushDataUint64 n`: it pushes `Uint64Bytes n`, by `opPushdata`
or, for zero, by `OP_0`. -/
def PushesData (inst : Instruction) : Prop :=
  ops inst.op = .opPushdata ∨ ops inst.op = .opFalse ∧ inst.data = []

theorem parseOp_pushDataUint64 {n : Nat} (hn : n < 2 ^ 64) :
    ∃ op, parseOp (pushDataUint64 n) 0 = .ok ⟨op, (pushDataUint64 n).length, uint64Bytes n⟩ ∧
      isExpansion op = false ∧ PushesData ⟨op, (pushDataUint64 n).length, uint64Bytes n⟩ := by
  by_cases h0 : n = 0
  · -- OP_0
    subst h0
    exact ⟨Op.op0, parseOp_bare (by decide) (by decide) rfl (by decide), rfl, .inr ⟨rfl, rfl⟩⟩
  by_cases h16 : n ≤ 16
  · -- OP_1 to OP_16 carry their number
    have hprog : pushDataUint64 n = [Op.op1 + UInt8.ofNat n - 1] := by
      rw [pushDataUint64, if_neg h0, if_pos ⟨by omega, h16⟩]
    have hop : (Op.op1 + UInt8.ofNat n - 1).toNat = 0x50 + n := by
      simp [Op.op1, UInt8.toNat_add, UInt8.toNat_sub]
      omega
    have hdata : Op.op1 + UInt8.ofNat n - 1 - Op.op1 + 1 = UInt8.ofNat n := by grind
    have hnamed : namedOps (Op.op1 + UInt8.ofNat n - 1).toNat = some .opPushdata := by
      unfold namedOps
      rw [hop, if_neg (by omega), if_pos ⟨by omega, by omega⟩]
    have hparse := @parseOp_num [Op.op1 + UInt8.ofNat n - 1] 0 (Op.op1 + UInt8.ofNat n - 1)
      (by rw [List.length_singleton]; decide) (by rw [List.length_singleton]; omega) rfl
      (by rw [UInt8.le_iff_toNat_le, hop]; unfold Op.op1; simp; omega)
      (by rw [UInt8.le_iff_toNat_le, hop]; unfold Op.op16; simp; omega)
    refine ⟨Op.op1 + UInt8.ofNat n - 1, ?_, ?_, .inl ?_⟩
    · rw [hprog, hparse, hdata, uint64Bytes, bigIntBytes_of_lt (by omega) (by omega)]
      rfl
    · rw [isExpansion, hnamed]
      rfl
    · show (namedOps (Op.op1 + UInt8.ofNat n - 1).toNat).getD .opNop = .opPushdata
      rw [hnamed]
      rfl
  · -- DATA_n with the number's bytes, at most eight of them
    have hlen₁ : (uint64Bytes n).length ≠ 0 := by
      intro hl
      have hnil : uint64Bytes n = [] := List.eq_nil_of_length_eq_zero hl
      have hv := valueLE_bigIntBytes n
      rw [← uint64Bytes, hnil, Nat.mod_eq_of_lt (by omega)] at hv
      exact h0 hv.symm
    have hlen₂ : (uint64Bytes n).length ≤ 8 :=
      (length_bigIntBytes_le_iff n 8).mpr (by rw [Nat.mod_eq_of_lt (by omega)]; omega)
    have hprog : pushDataUint64 n = pushDataBytes (uint64Bytes n) ++ [] := by
      rw [pushDataUint64, if_neg h0, if_neg (by omega), List.append_nil]
    have hop : pushOpcode (uint64Bytes n).length = UInt8.ofNat (uint64Bytes n).length := by
      rw [pushOpcode, if_neg hlen₁, if_pos (by omega)]
    have hbyte : (UInt8.ofNat (uint64Bytes n).length).toNat = (uint64Bytes n).length := by
      rw [UInt8.toNat_ofNat']
      omega
    have hl : (pushDataBytes (uint64Bytes n) ++ []).length ≤ maxInt32 := by
      rw [List.append_nil, pushDataBytes_of_le (by omega) (by omega), List.length_cons]
      unfold maxInt32
      omega
    obtain ⟨hpush, hx⟩ := @ops_of_push (UInt8.ofNat (uint64Bytes n).length) (by omega) (by omega)
    refine ⟨UInt8.ofNat (uint64Bytes n).length, ?_, hx, .inl hpush⟩
    rw [hprog, parseOp_pushDataBytes hl, hop, List.append_nil]

/-! ## Running a push -/

section Step

variable (cr : Crypto) (ctx : Context) {child : VmM Unit} {vm vm' : VM} {inst : Instruction}

/-- A step that decodes a push leaves the instruction's data on top of the stack. -/
theorem step_push_dataStack (hp : parseOp vm.program vm.pc = .ok inst)
    (hx : isExpansion inst.op = false) (hpush : PushesData inst)
    (h : (step cr ctx child).run vm = .ok () vm') : vm'.dataStack = inst.data :: vm.dataStack := by
  obtain ⟨vm₁, h₁, -, rfl⟩ := (step_eq_ok cr ctx hp hx).mp h
  rcases hpush with hop | ⟨hop, hdata⟩
  · rw [hop, show opFn cr ctx child .opPushdata = opPushdata from rfl, opPushdata_eq_ok] at h₁
    obtain ⟨-, -, rfl⟩ := h₁
    rfl
  · rw [hop, show opFn cr ctx child .opFalse = opFalse from rfl, opFalse_eq_ok] at h₁
    obtain ⟨-, -, rfl⟩ := h₁
    rw [hdata]

/-- With the gas for its data, that step succeeds. -/
theorem step_push_ok (hp : parseOp vm.program vm.pc = .ok inst)
    (hx : isExpansion inst.op = false) (hpush : PushesData inst)
    (hR : 9 + (inst.data.length : Int) ≤ vm.runLimit) (hM : vm.runLimit ≤ maxInt64) :
    ∃ vm', (step cr ctx child).run vm = .ok () vm' := by
  unfold maxInt64 at hM
  have h₁ : int64 (vm.runLimit - 1) = vm.runLimit - 1 := int64_of_le (by omega) (by omega)
  have h₂ : int64 (vm.runLimit - 1 - (8 + inst.data.length)) =
      vm.runLimit - 1 - (8 + inst.data.length) := int64_of_le (by omega) (by omega)
  -- the opcode runs on the machine the step hands it, and leaves no deferred cost
  have hop₁ : ∃ vm₁, (opFn cr ctx child (ops inst.op)).run
      { vm with nextPC := uint32 (vm.pc + inst.len), deferredCost := 0, data := inst.data } =
        .ok () vm₁ ∧ vm₁.deferredCost ≤ vm₁.runLimit := by
    rcases hpush with hop | ⟨hop, hdata⟩
    · rw [hop, show opFn cr ctx child .opPushdata = opPushdata from rfl]
      refine ⟨_, Iff.mpr opPushdata_eq_ok ⟨?_, ?_, rfl⟩, ?_⟩
      · dsimp only
        omega
      · dsimp only
        rw [h₁]
        omega
      · dsimp only
        rw [h₁, h₂]
        omega
    · rw [hop, show opFn cr ctx child .opFalse = opFalse from rfl]
      rw [hdata, List.length_nil, Int.natCast_zero, Int.add_zero] at h₂
      refine ⟨_, Iff.mpr opFalse_eq_ok ⟨?_, ?_, rfl⟩, ?_⟩
      · dsimp only
        omega
      · dsimp only
        rw [h₁]
        rw [hdata, List.length_nil] at hR
        omega
      · dsimp only
        rw [h₁, h₂]
        rw [hdata, List.length_nil] at hR
        omega
  obtain ⟨vm₁, h₁, h₂⟩ := hop₁
  exact ⟨_, (step_eq_ok cr ctx hp hx).mpr ⟨vm₁, h₁, h₂, rfl⟩⟩

end Step

/-- Push data and instruction decoding agree: `PushDataBytes d`, followed by anything, decodes
to one instruction of its own length whose data is `d`, under the opcode `PushDataBytes` chose,
when the program fits `MaxInt32`; and the one instruction of `PushDataUint64 n` pushes
`Uint64Bytes n`, which `AsBigInt` reads as `n`, succeeding once the gas for it is there. -/
theorem pushData_roundTrip :
    (∀ d r : Bytes, (pushDataBytes d ++ r).length ≤ maxInt32 →
      parseOp (pushDataBytes d ++ r) 0 = .ok ⟨pushOpcode d.length, (pushDataBytes d).length, d⟩) ∧
    ∀ n < 2 ^ 64, asBigInt (uint64Bytes n) = .ok n ∧
      ∀ (cr : Crypto) (ctx : Context) (child : VmM Unit) (vm : VM),
        vm.program = pushDataUint64 n → vm.pc = 0 →
        (∀ vm', (step cr ctx child).run vm = .ok () vm' → vm'.dataStack = uint64Bytes n :: vm.dataStack) ∧
        (17 ≤ vm.runLimit → vm.runLimit ≤ maxInt64 → ∃ vm', (step cr ctx child).run vm = .ok () vm') := by
  refine ⟨fun d r hl => parseOp_pushDataBytes hl, fun n hn => ⟨asBigInt_bigIntBytes (by omega), ?_⟩⟩
  intro cr ctx child vm hprog hpc
  obtain ⟨op, hp, hx, hpush⟩ := parseOp_pushDataUint64 hn
  rw [← hprog, ← hpc] at hp
  have hlen : (uint64Bytes n).length ≤ 8 :=
    (length_bigIntBytes_le_iff n 8).mpr (by rw [Nat.mod_eq_of_lt (by omega)]; omega)
  refine ⟨fun vm' h => step_push_dataStack cr ctx hp hx hpush h, fun hR hM => ?_⟩
  exact step_push_ok cr ctx hp hx hpush (by dsimp only; omega) hM

end KuskCore.Vm
