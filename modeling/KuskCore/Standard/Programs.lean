import KuskCore.Vm.Ops

/-!
# Standard control programs and their conversion

`protocol/vm/vmutil/script.go` builds the standard programs, `consensus/segwit/segwit.go` and
`consensus/bcrp/bcrp.go` recognise them, and `convertProgram` of
`protocol/validation/vmcontext.go` replaces a spent output's program by the one `Verify` runs.

`Builder.Build` fails only on an unresolved jump target, and none of these programs jumps, so the
builders return the program itself. A converter's error is `none`: `convertProgram` only asks
whether there was one, and the texts of the errors are not modelled.
-/

namespace KuskCore.Vm

open GoInt KuskCore.Checked

/-! ## Builders -/

/-- `P2WPKHProgram`. -/
def p2WPKHProgram (hash : Bytes) : Bytes := pushDataUint64 0 ++ pushDataBytes hash

/-- `bcrp.BCRP`, the tag of contract registration and call programs. -/
def bcrpTag : Bytes := [0x62, 0x63, 0x72, 0x70]

/-- `CallContractProgram`. -/
def callContractProgram (hash : Bytes) : Bytes := pushDataBytes bcrpTag ++ pushDataBytes hash

/-- `P2PKHSigProgram`: `DUP HASH160 <hash> EQUALVERIFY TXSIGHASH SWAP CHECKSIG`. -/
def p2PKHSigProgram (pubkeyHash : Bytes) : Bytes :=
  [Op.dup, Op.hash160] ++ pushDataBytes pubkeyHash ++
    [Op.equalVerify, Op.txSigHash, Op.swap, Op.checkSig]

/-- `P2SHProgram`: `DUP SHA3 <hash> EQUALVERIFY 0 SWAP 0 CHECKPREDICATE`. -/
def p2SHProgram (scriptHash : Bytes) : Bytes :=
  [Op.dup, Op.sha3] ++ pushDataBytes scriptHash ++ [Op.equalVerify] ++ pushDataUint64 0 ++
    [Op.swap] ++ pushDataUint64 0 ++ [Op.checkPredicate]

/-! ## Recognisers -/

/-- `IsP2WPKHScript`. -/
def isP2WPKHScript (prog : Bytes) : Bool :=
  match parseProgram prog with
  | .ok [i₀, i₁] => i₀.op == Op.op0 && i₁.op == Op.data20 && i₁.data.length == 20
  | _ => false

/-- `IsP2WSHScript`. -/
def isP2WSHScript (prog : Bytes) : Bool :=
  match parseProgram prog with
  | .ok [i₀, i₁] => i₀.op == Op.op0 && i₁.op == Op.data32 && i₁.data.length == 32
  | _ => false

/-- `IsCallContractScript`. -/
def isCallContractScript (prog : Bytes) : Bool :=
  match parseProgram prog with
  | .ok [i₀, i₁] =>
    i₀.op == Op.data4 && i₀.data == bcrpTag && i₁.op == Op.data32 && i₁.data.length == 32
  | _ => false

/-- `IsBCRPScript`: `FAIL`, the tag, the version `1`, and a non-empty contract. -/
def isBCRPScript (prog : Bytes) : Bool :=
  match parseProgram prog with
  | .ok [i₀, i₁, i₂, i₃] =>
    i₀.op == Op.fail && i₁.op == Op.data4 && i₁.data == bcrpTag && i₂.op == Op.data1 &&
      i₂.data == [1] && decide (i₃.data.length > 0)
  | _ => false

/-- `ParseContract`: the data of the last instruction of a program of four. -/
def parseContract (prog : Bytes) : Option Bytes :=
  match parseProgram prog with
  | .ok [_, _, _, i₃] => some i₃.data
  | _ => none

/-- A registration program holds a contract. -/
theorem parseContract_of_isBCRPScript {prog : Bytes} (h : isBCRPScript prog = true) :
    ∃ contract, parseContract prog = some contract := by
  unfold isBCRPScript at h
  unfold parseContract
  split at h
  · exact ⟨_, rfl⟩
  · cases h

/-- `ConvertP2PKHSigProgram`. Go indexes `insts[1]` without a check; its one caller has made sure
by `IsP2WPKHScript` that there are two instructions. -/
def convertP2PKHSigProgram (prog : Bytes) : Option Bytes :=
  match parseProgram prog with
  | .ok (i₀ :: i₁ :: _) => if i₀.op = Op.op0 then some (p2PKHSigProgram i₁.data) else none
  | _ => none

/-- `ConvertP2SHProgram`, under the same proviso. -/
def convertP2SHProgram (prog : Bytes) : Option Bytes :=
  match parseProgram prog with
  | .ok (i₀ :: i₁ :: _) => if i₀.op = Op.op0 then some (p2SHProgram i₁.data) else none
  | _ => none

/-- `ParseContractHash`: the second instruction's data copied into a zeroed 32-byte array. -/
def parseContractHash (prog : Bytes) : Option Bytes :=
  match parseProgram prog with
  | .ok [_, i₁] => some ((i₁.data ++ List.replicate 32 0).take 32)
  | _ => none

/-- `getContract` over the contract store: the stored value is a 32-byte transaction ID followed
by the contract's code. -/
def getContract (store : Bytes → Option Bytes) (hash : Bytes) : Option Bytes :=
  match store hash with
  | none => none
  | some data => if data.length ≤ 32 then none else some (data.drop 32)

/-- `Chain.ProgramConverter`: the registered contract a call-contract program names. -/
def programConverter (store : Bytes → Option Bytes) (prog : Bytes) : Option Bytes :=
  (parseContractHash prog).bind (getContract store)

/-- `convertProgram`: a recognised program is replaced by its conversion, and by itself when the
conversion fails. -/
def convertProgram (prog : Bytes) (converter : Bytes → Option Bytes) : Bytes :=
  if isP2WPKHScript prog then (convertP2PKHSigProgram prog).getD prog
  else if isP2WSHScript prog then (convertP2SHProgram prog).getD prog
  else if isCallContractScript prog then (converter prog).getD prog
  else prog

/-! ## Decoding the standard programs -/

section Decode

variable {h : Bytes}

theorem pushDataBytes_of_le (h₀ : 0 < h.length) (h₁ : h.length ≤ 75) :
    pushDataBytes h = UInt8.ofNat h.length :: h := by
  unfold pushDataBytes
  rw [if_neg (by omega), if_pos h₁]
  congr 1
  simp only [Op.data1]
  rw [UInt8.add_comm, UInt8.add_sub_cancel]

theorem slice_append_mid {a b c : Bytes} {lo hi : Nat} (ha : a.length = lo)
    (hb : b.length = hi - lo) (hlo : lo ≤ hi) : slice (a ++ b ++ c) lo hi = b := by
  unfold slice
  subst ha
  have hb' : hi = a.length + b.length := by omega
  subst hb'
  rw [List.take_append_of_le_length (by simp), List.take_of_length_le (by simp), List.drop_left]

/-- The two short pushes of a program `<a> <b>`, decoded at their offsets. -/
theorem parseOp_push_push {a b : Bytes} (ha₀ : 0 < a.length) (ha₁ : a.length ≤ 75)
    (hb₀ : 0 < b.length) (hb₁ : b.length ≤ 75) :
    parseOp (UInt8.ofNat a.length :: a ++ UInt8.ofNat b.length :: b) 0 =
      .ok ⟨UInt8.ofNat a.length, 1 + a.length, a⟩ ∧
    parseOp (UInt8.ofNat a.length :: a ++ UInt8.ofNat b.length :: b) (1 + a.length) =
      .ok ⟨UInt8.ofNat b.length, 1 + b.length, b⟩ := by
  have hna : (UInt8.ofNat a.length).toNat = a.length := by
    rw [UInt8.toNat_ofNat']
    exact Nat.mod_eq_of_lt (by omega)
  have hnb : (UInt8.ofNat b.length).toNat = b.length := by
    rw [UInt8.toNat_ofNat']
    exact Nat.mod_eq_of_lt (by omega)
  have hl : (UInt8.ofNat a.length :: a ++ UInt8.ofNat b.length :: b).length ≤ maxInt32 := by
    simp only [List.length_append, List.length_cons, maxInt32]
    omega
  constructor
  · rw [parseOp_data hl (show (UInt8.ofNat a.length :: a ++ UInt8.ofNat b.length :: b).getD 0 0 =
      UInt8.ofNat a.length from rfl) (by omega) (by omega) (by simp; omega), hna]
    congr 2
    exact @slice_append_mid [UInt8.ofNat a.length] a (UInt8.ofNat b.length :: b) 1 (1 + a.length)
      rfl (by omega) (by omega)
  · have hget : (UInt8.ofNat a.length :: a ++ UInt8.ofNat b.length :: b).getD (1 + a.length) 0 =
        UInt8.ofNat b.length := by
      simp [Nat.add_comm]
    rw [parseOp_data hl hget (by omega) (by omega) (by simp; omega), hnb]
    have e : UInt8.ofNat a.length :: a ++ UInt8.ofNat b.length :: b =
        (UInt8.ofNat a.length :: a ++ [UInt8.ofNat b.length]) ++ b ++ [] := by simp
    rw [e, slice_append_mid (by simp; omega) (by omega) (by omega)]

/-- The two instructions of a program `<a> <b>` of two short pushes. -/
theorem parseProgram_push_push {a b : Bytes} (ha₀ : 0 < a.length) (ha₁ : a.length ≤ 75)
    (hb₀ : 0 < b.length) (hb₁ : b.length ≤ 75) :
    parseProgram (UInt8.ofNat a.length :: a ++ UInt8.ofNat b.length :: b) =
      .ok [⟨UInt8.ofNat a.length, 1 + a.length, a⟩, ⟨UInt8.ofNat b.length, 1 + b.length, b⟩] := by
  obtain ⟨p₀, p₁⟩ := parseOp_push_push ha₀ ha₁ hb₀ hb₁
  have hlen : (UInt8.ofNat a.length :: a ++ UInt8.ofNat b.length :: b).length =
      a.length + b.length + 2 := by
    simp only [List.length_append, List.length_cons]
    omega
  have hu : uint32 (UInt8.ofNat a.length :: a ++ UInt8.ofNat b.length :: b).length =
      a.length + b.length + 2 := by
    rw [hlen]
    exact uint32_of_lt (by omega)
  unfold parseProgram
  rw [show (UInt8.ofNat a.length :: a ++ UInt8.ofNat b.length :: b).length + 1 =
    a.length + b.length + 1 + 1 + 1 by omega]
  rw [parseProgramFrom_step (by omega) p₀
    (by show 0 + (1 + a.length) ≤ maxUint32; unfold maxUint32; omega), Nat.zero_add]
  show parseProgramFrom _ (a.length + b.length + 1 + 1) (1 + a.length) [⟨_, _, a⟩] = _
  rw [parseProgramFrom_step (by omega) p₁
    (by show 1 + a.length + (1 + b.length) ≤ maxUint32; unfold maxUint32; omega)]
  rw [parseProgramFrom_end (by show ¬ 1 + a.length + (1 + b.length) < _; omega)]
  rfl

end Decode

/-! ## What `convertProgram` makes of the standard programs -/

section Convert

variable {h : Bytes}

theorem callContractProgram_eq (hh : h.length = 32) :
    callContractProgram h = UInt8.ofNat bcrpTag.length :: bcrpTag ++ UInt8.ofNat h.length :: h := by
  have e₁ : pushDataBytes bcrpTag = UInt8.ofNat bcrpTag.length :: bcrpTag :=
    pushDataBytes_of_le (by decide) (by decide)
  have e₂ : pushDataBytes h = UInt8.ofNat h.length :: h := pushDataBytes_of_le (by omega) (by omega)
  rw [callContractProgram, e₁, e₂]

theorem isCallContractScript_callContractProgram (hh : h.length = 32) :
    isP2WPKHScript (callContractProgram h) = false ∧ isP2WSHScript (callContractProgram h) = false ∧
      isCallContractScript (callContractProgram h) = true := by
  rw [callContractProgram_eq hh, isP2WPKHScript, isP2WSHScript, isCallContractScript,
    parseProgram_push_push (by decide) (by decide) (by omega) (by omega)]
  simp [hh, Op.op0, Op.data4, Op.data32, bcrpTag]

/-- A call-contract program runs as the converter's contract, and as itself when the converter
fails. -/
theorem convertProgram_callContractProgram (hh : h.length = 32)
    (converter : Bytes → Option Bytes) :
    convertProgram (callContractProgram h) converter =
      (converter (callContractProgram h)).getD (callContractProgram h) := by
  obtain ⟨h₁, h₂, h₃⟩ := isCallContractScript_callContractProgram hh
  rw [convertProgram, h₁, h₂, h₃, if_neg Bool.false_ne_true, if_neg Bool.false_ne_true, if_pos rfl]

end Convert

end KuskCore.Vm
