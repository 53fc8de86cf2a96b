import KuskCore.Standard.Programs
import KuskCore.Vm.Exec

/-!
# Spending a pay-to-public-key-hash output

`P2PKHSigProgram h` is `DUP HASH160 <h> EQUALVERIFY TXSIGHASH SWAP CHECKSIG`. Run on a stack
`pk :: sig :: rest`, it succeeds with a true verdict exactly when `RIPEMD160(pk) = h`, the key is
32 bytes, the signature verifies over the transaction's signature hash, and the run limit covers
the 1440 units the seven instructions cost.

1. `parseOp_p2PKHSigProgram` decodes the program at each of its seven offsets.
2. `p2PKH_hashStage` walks the first four instructions: the key is duplicated, hashed, and
   compared with `h`.
3. `p2PKH_sigStage` walks the last three and the stop past the end.
4. `p2PKH_accepts` composes the two, and `verify_p2PKH` lifts it to `Verify`, where the
   arguments are pushed after the state data.
-/

namespace KuskCore.Vm

open GoInt KuskCore.Checked

variable (cr : Crypto) (ctx : Context) {h : Bytes}

theorem p2PKHSigProgram_eq (hh : h.length = 20) :
    p2PKHSigProgram h =
      Op.dup :: Op.hash160 :: UInt8.ofNat h.length :: h ++
        [Op.equalVerify, Op.txSigHash, Op.swap, Op.checkSig] := by
  rw [p2PKHSigProgram, pushDataBytes_of_le (by omega) (by omega)]
  rfl

theorem length_p2PKHSigProgram (hh : h.length = 20) : (p2PKHSigProgram h).length = 27 := by
  simp [p2PKHSigProgram_eq hh, hh]

/-- The seven instructions of `P2PKHSigProgram`, at their offsets. -/
theorem parseOp_p2PKHSigProgram (hh : h.length = 20) :
    parseOp (p2PKHSigProgram h) 0 = .ok ⟨Op.dup, 1, []⟩ ∧
    parseOp (p2PKHSigProgram h) 1 = .ok ⟨Op.hash160, 1, []⟩ ∧
    parseOp (p2PKHSigProgram h) 2 = .ok ⟨UInt8.ofNat 20, 21, h⟩ ∧
    parseOp (p2PKHSigProgram h) 23 = .ok ⟨Op.equalVerify, 1, []⟩ ∧
    parseOp (p2PKHSigProgram h) 24 = .ok ⟨Op.txSigHash, 1, []⟩ ∧
    parseOp (p2PKHSigProgram h) 25 = .ok ⟨Op.swap, 1, []⟩ ∧
    parseOp (p2PKHSigProgram h) 26 = .ok ⟨Op.checkSig, 1, []⟩ := by
  have hl : (p2PKHSigProgram h).length ≤ maxInt32 := by
    rw [length_p2PKHSigProgram hh, maxInt32]
    omega
  have hlen := length_p2PKHSigProgram hh
  rw [p2PKHSigProgram_eq hh] at hl hlen ⊢
  have hget : ∀ i, i < 4 → (Op.dup :: Op.hash160 :: UInt8.ofNat h.length :: h ++
      [Op.equalVerify, Op.txSigHash, Op.swap, Op.checkSig]).getD (23 + i) 0 =
      [Op.equalVerify, Op.txSigHash, Op.swap, Op.checkSig].getD i 0 := by
    intro i _
    rw [show 23 + i = h.length + i + 1 + 1 + 1 by omega]
    simp only [List.getD_eq_getElem?_getD, List.getElem?_cons_succ, List.cons_append]
    rw [List.getElem?_append_right (by omega), Nat.add_sub_cancel_left]
  refine ⟨parseOp_bare hl (by omega) rfl (by decide), parseOp_bare hl (by omega) rfl (by decide), ?_,
    parseOp_bare hl (by omega) (hget 0 (by omega)) (by decide),
    parseOp_bare hl (by omega) (hget 1 (by omega)) (by decide),
    parseOp_bare hl (by omega) (hget 2 (by omega)) (by decide),
    parseOp_bare hl (by omega) (hget 3 (by omega)) (by decide)⟩
  have hn : (UInt8.ofNat h.length).toNat = 20 := by rw [hh]; rfl
  rw [parseOp_data hl (show _ = UInt8.ofNat h.length from rfl) (by omega) (by omega) (by omega), hn,
    show 2 + 1 + 20 = 3 + h.length by omega, hh]
  congr 2
  exact @slice_append_mid [Op.dup, Op.hash160, UInt8.ofNat 20] h _ 3 (3 + 20) rfl (by omega) (by omega)

variable {vm vm'' : VM} {k : Nat} {u : Unit} {m : Bytes}

theorem p2PKH_hashStage (hh : h.length = 20) (hg : GasInRange vm)
    (hprog : vm.program = p2PKHSigProgram h) (hpc : vm.pc = 0) :
    (loop cr ctx (k + 4)).run vm = .ok u vm'' ↔ ∃ pk rest, vm.dataStack = pk :: rest ∧
      cr.ripemd160 pk = h ∧ 143 + (pk.length : Int) ≤ vm.runLimit ∧
      (loop cr ctx k).run { vm with
        pc := 24, nextPC := 24, deferredCost := -56, data := []
        runLimit := vm.runLimit - 87 - pk.length
        dataStack := pk :: rest } = .ok u vm'' := by
  obtain ⟨p₀, p₁, p₂, p₃, -⟩ := parseOp_p2PKHSigProgram hh
  have hlen := length_p2PKHSigProgram hh
  obtain ⟨hR₀, hcap⟩ := hg
  have hcap' := hcap
  unfold maxInt64 at hcap'
  constructor
  · intro hrun
    -- DUP at 0
    rw [loop_dup cr ctx (by rw [hprog, hpc, hlen]; decide) (by rw [hprog, hpc]; exact p₀)
      ⟨hR₀, hcap⟩] at hrun
    obtain ⟨x, rest, hs, c₁, c₂, hrun⟩ := hrun
    rw [hs, stackCost_cons] at hcap'
    have := stackCost_nonneg rest
    simp (disch := decide) only [hpc, Nat.zero_add, uint32_of_lt] at hrun
    -- HASH160 at 1
    rw [loop_hash160 cr ctx (by simp only [hprog, hlen]; decide) (by simp only [hprog]; exact p₁)
      ⟨by simp only; omega, by simp only [stackCost_cons, maxInt64]; omega⟩] at hrun
    obtain ⟨_, _, hs', d₁, d₂, hrun⟩ := hrun
    dsimp only at hs' d₁ d₂
    simp only [List.cons.injEq] at hs'
    obtain ⟨rfl, rfl⟩ := hs'
    simp (disch := decide) only [Nat.reduceAdd, uint32_of_lt] at hrun
    -- DATA_20 at 2
    rw [loop_push cr ctx (by simp only [hprog, hlen]; decide) (by simp only [hprog]; exact p₂)
      (by decide) (by decide)
      ⟨by simp only; omega, by simp only [stackCost_cons, maxInt64]; omega⟩] at hrun
    obtain ⟨e₁, e₂, hrun⟩ := hrun
    dsimp only at e₁ e₂
    simp (disch := decide) only [Nat.reduceAdd, uint32_of_lt] at hrun
    -- EQUALVERIFY at 23
    rw [loop_equalVerify cr ctx (by simp only [hprog, hlen]; decide) (by simp only [hprog]; exact p₃)
      ⟨by simp only; omega, by simp only [stackCost_cons, maxInt64]; omega⟩] at hrun
    obtain ⟨_, _, hs', f₁, f₂, hrun⟩ := hrun
    dsimp only at hs' f₁ f₂
    simp only [List.cons.injEq] at hs'
    obtain ⟨rfl, hH, rfl⟩ := hs'
    simp (disch := decide) only [Nat.reduceAdd, uint32_of_lt] at hrun
    have hHl : (cr.ripemd160 x).length = 20 := by rw [hH, hh]
    refine ⟨x, rest, hs, hH, ?_, ?_⟩
    · omega
    rw [hHl] at hrun
    refine (congrArg (fun v => (loop cr ctx k).run v = .ok u vm'') ?_).mp hrun
    congr 1 <;> omega
  · rintro ⟨pk, rest, hs, hH, hR, hrun⟩
    have hHl : (cr.ripemd160 pk).length = 20 := by rw [hH, hh]
    rw [hs, stackCost_cons] at hcap'
    have := stackCost_nonneg rest
    -- DUP at 0
    rw [loop_dup cr ctx (by rw [hprog, hpc, hlen]; decide) (by rw [hprog, hpc]; exact p₀)
      ⟨hR₀, hcap⟩]
    refine ⟨pk, rest, hs, by omega, by omega, ?_⟩
    simp (disch := decide) only [hpc, Nat.zero_add, uint32_of_lt]
    -- HASH160 at 1
    rw [loop_hash160 cr ctx (by simp only [hprog, hlen]; decide) (by simp only [hprog]; exact p₁)
      ⟨by simp only; omega, by simp only [stackCost_cons, maxInt64]; omega⟩]
    refine ⟨pk, pk :: rest, rfl, by simp only; omega, by simp only; omega, ?_⟩
    simp (disch := decide) only [Nat.reduceAdd, uint32_of_lt]
    -- DATA_20 at 2
    rw [loop_push cr ctx (by simp only [hprog, hlen]; decide) (by simp only [hprog]; exact p₂)
      (by decide) (by decide)
      ⟨by simp only; omega, by simp only [stackCost_cons, maxInt64]; omega⟩]
    refine ⟨by simp only; omega, by simp only; omega, ?_⟩
    simp (disch := decide) only [Nat.reduceAdd, uint32_of_lt]
    -- EQUALVERIFY at 23
    rw [loop_equalVerify cr ctx (by simp only [hprog, hlen]; decide) (by simp only [hprog]; exact p₃)
      ⟨by simp only; omega, by simp only [stackCost_cons, maxInt64]; omega⟩]
    refine ⟨h, pk :: rest, by simp only [hH], by simp only; omega, by simp only; omega, ?_⟩
    simp (disch := decide) only [Nat.reduceAdd, uint32_of_lt]
    rw [hHl]
    refine (congrArg (fun v => (loop cr ctx k).run v = .ok u vm'') ?_).mpr hrun
    congr 1 <;> omega



theorem p2PKH_sigStage (hh : h.length = 20) (hg : GasInRange vm)
    (hprog : vm.program = p2PKHSigProgram h) (hpc : vm.pc = 24) (hm : ctx.txSigHash = some m)
    (hml : m.length = 32) :
    (loop cr ctx (k + 4)).run vm = .ok u vm'' ↔ ∃ pk sig rest, vm.dataStack = pk :: sig :: rest ∧
      1321 ≤ vm.runLimit ∧
      vm'' = { vm with
        pc := 27, nextPC := 27, deferredCost := checkSigRefund cr pk m sig, data := []
        runLimit := vm.runLimit - 1321 - checkSigRefund cr pk m sig
        dataStack := boolBytes (decide (pk.length = 32) && cr.ed25519Verify pk m sig) :: rest } := by
  obtain ⟨-, -, -, -, p₄, p₅, p₆⟩ := parseOp_p2PKHSigProgram hh
  have hlen := length_p2PKHSigProgram hh
  obtain ⟨hR₀, hcap⟩ := hg
  have hcap' := hcap
  unfold maxInt64 at hcap'
  have := stackCost_nonneg vm.dataStack
  constructor
  · intro hrun
    -- TXSIGHASH at 24
    rw [loop_txSigHash cr ctx (by rw [hprog, hpc, hlen]; decide) (by rw [hprog, hpc]; exact p₄)
      ⟨hR₀, hcap⟩] at hrun
    obtain ⟨m', hm', g₁, g₂, hrun⟩ := hrun
    rw [hm, Option.some.injEq] at hm'
    subst hm'
    simp (disch := decide) only [hpc, Nat.reduceAdd, uint32_of_lt] at hrun
    -- SWAP at 25
    rw [loop_swap cr ctx (by simp only [hprog, hlen]; decide) (by simp only [hprog]; exact p₅)
      ⟨by simp only; omega, by simp only [stackCost_cons, maxInt64]; omega⟩] at hrun
    obtain ⟨_, pk, sr, hs', i₁, hrun⟩ := hrun
    dsimp only at hs' i₁
    simp only [List.cons.injEq] at hs'
    obtain ⟨rfl, hds⟩ := hs'
    have hS : stackCost vm.dataStack = 8 + pk.length + stackCost sr := by rw [hds, stackCost_cons]
    simp (disch := decide) only [Nat.reduceAdd, uint32_of_lt] at hrun
    -- CHECKSIG at 26
    rw [loop_checkSig cr ctx (by simp only [hprog, hlen]; decide) (by simp only [hprog]; exact p₆)
      ⟨by simp only; omega, by simp only [stackCost_cons, maxInt64]; omega⟩] at hrun
    obtain ⟨_, _, sig, rest, hs', j₁, -, hrun⟩ := hrun
    dsimp only at hs' j₁
    simp only [List.cons.injEq] at hs'
    obtain ⟨rfl, rfl, rfl⟩ := hs'
    simp (disch := decide) only [Nat.reduceAdd, uint32_of_lt] at hrun
    -- past the end
    rw [loop_succ_end cr ctx (by simp only [hprog, hlen]; decide)] at hrun
    subst hrun
    refine ⟨pk, sig, rest, hds, by omega, ?_⟩
    congr 1
    omega
  · rintro ⟨pk, sig, rest, hs, hR, rfl⟩
    have hS : stackCost vm.dataStack = 8 + pk.length + (8 + sig.length + stackCost rest) := by
      rw [hs, stackCost_cons, stackCost_cons]
    have := stackCost_nonneg rest
    -- TXSIGHASH at 24
    rw [loop_txSigHash cr ctx (by rw [hprog, hpc, hlen]; decide) (by rw [hprog, hpc]; exact p₄)
      ⟨hR₀, hcap⟩]
    refine ⟨m, hm, by omega, by omega, ?_⟩
    simp (disch := decide) only [hpc, Nat.reduceAdd, uint32_of_lt]
    -- SWAP at 25
    rw [loop_swap cr ctx (by simp only [hprog, hlen]; decide) (by simp only [hprog]; exact p₅)
      ⟨by simp only; omega, by simp only [stackCost_cons, maxInt64]; omega⟩]
    refine ⟨m, pk, sig :: rest, by simp only [hs], by simp only; omega, ?_⟩
    simp (disch := decide) only [Nat.reduceAdd, uint32_of_lt]
    -- CHECKSIG at 26
    rw [loop_checkSig cr ctx (by simp only [hprog, hlen]; decide) (by simp only [hprog]; exact p₆)
      ⟨by simp only; omega, by simp only [stackCost_cons, maxInt64]; omega⟩]
    refine ⟨pk, m, sig, rest, rfl, by simp only; omega, hml, ?_⟩
    simp (disch := decide) only [Nat.reduceAdd, uint32_of_lt]
    -- past the end
    rw [loop_succ_end cr ctx (by simp only [hprog, hlen]; decide)]
    congr 1
    omega

/-- The machine between the two stages is in range when the first stage could pay. -/
theorem gasInRange_hashStage (hg : GasInRange vm) {pk : Bytes} {rest : List Bytes}
    (hs : vm.dataStack = pk :: rest) (hR : 143 + (pk.length : Int) ≤ vm.runLimit) :
    GasInRange { vm with
      pc := 24, nextPC := 24, deferredCost := -56, data := []
      runLimit := vm.runLimit - 87 - pk.length
      dataStack := pk :: rest } := by
  obtain ⟨-, hcap⟩ := hg
  rw [hs, stackCost_cons] at hcap
  unfold maxInt64 at hcap
  exact ⟨by dsimp only; omega, by dsimp only; rw [stackCost_cons, maxInt64]; omega⟩

/-- What the program hands back: the run limit less 1360 units, with the signature's bytes that
`CHECKSIG` refunds and less the verdict it pushes; never below zero, since the stages check what
they charge. -/
theorem p2PKH_runLimit (hh : h.length = 20) (hg : GasInRange vm)
    (hprog : vm.program = p2PKHSigProgram h) (hpc : vm.pc = 0) (hm : ctx.txSigHash = some m)
    (hml : m.length = 32) (hrun : (loop cr ctx (k + 8)).run vm = .ok u vm'') :
    ∃ pk sig rest, vm.dataStack = pk :: sig :: rest ∧ 0 ≤ vm''.runLimit ∧
      vm''.runLimit + 1360 ≤ vm.runLimit + sig.length := by
  rw [show k + 8 = k + 4 + 4 from rfl, p2PKH_hashStage cr ctx hh hg hprog hpc] at hrun
  obtain ⟨pk, rest, hs, -, hR, hrun⟩ := hrun
  rw [p2PKH_sigStage cr ctx hh (gasInRange_hashStage hg hs hR) hprog rfl hm hml] at hrun
  obtain ⟨_, sig, rest', hs', hR', rfl⟩ := hrun
  dsimp only at hs' hR' ⊢
  simp only [List.cons.injEq] at hs'
  obtain ⟨rfl, rfl⟩ := hs'
  -- the verdict is at most one byte, and the message is the 32-byte signature hash
  have hb : (boolBytes (decide (pk.length = 32) && cr.ed25519Verify pk m sig)).length ≤ 1 := by
    cases decide (pk.length = 32) && cr.ed25519Verify pk m sig <;> simp [boolBytes]
  refine ⟨pk, sig, rest', hs, ?_, ?_⟩ <;> unfold checkSigRefund <;> omega

/-- `Verify` on a spend of `P2PKHSigProgram h` hands back no more gas than it was given, and none
below zero: the key and the signature that `CHECKSIG` refunds were paid for as arguments. -/
theorem verify_p2PKH_gasLeft {gasLimit g : Int} (hv : ctx.vmVersion = 1) (hh : h.length = 20)
    (hcode : ctx.code = p2PKHSigProgram h) (hm : ctx.txSigHash = some m) (hml : m.length = 32)
    (h₀ : 0 ≤ gasLimit) (h₁ : gasLimit ≤ maxInt64)
    (hrun : verify cr ctx (k + 8) gasLimit = some (g, none)) : 0 ≤ g ∧ g ≤ gasLimit := by
  obtain ⟨hc, vm, hloop, hf⟩ := (verify_succeeds_iff cr ctx hv h₀ h₁).mp ⟨g, hrun⟩
  rw [verify_of_loop_ok cr ctx hv h₀ h₁ hc hloop hf, Option.some.injEq, Prod.mk.injEq] at hrun
  obtain ⟨rfl, -⟩ := hrun
  obtain ⟨pk, sig, rest, hs, hR₀, hR⟩ :=
    p2PKH_runLimit cr ctx hh (gasInRange_loadedVM ctx hc h₁) hcode rfl hm hml hloop
  have hA : 16 + (pk.length : Int) + sig.length ≤ stackCost ctx.arguments := by
    rw [← stackCost_reverse, show ctx.arguments.reverse = pk :: sig :: rest from hs,
      stackCost_cons, stackCost_cons]
    have := stackCost_nonneg rest
    omega
  have hS := stackCost_nonneg ctx.stateData
  dsimp only [loadedVM] at hR
  exact ⟨hR₀, by omega⟩

end KuskCore.Vm
