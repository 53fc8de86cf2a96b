import KuskCore.Standard.ScriptHash

/-!
# What a spend of each standard output requires

A spend runs `Verify` on `convertProgram` of the output's control program. The two segregated
witness programs are converted to `P2PKHSigProgram` and `P2SHProgram`, whose runs
`PubKeyHash` and `ScriptHash` describe. A call-contract program is converted to the contract the
converter finds for it, and when the converter finds none, `convertProgram` keeps the program
itself: it pushes `bcrp` and the contract hash, so any spend of it succeeds when the hash has a
nonzero byte, whatever the arguments.
-/

namespace KuskCore.Vm

open GoInt KuskCore.Checked

variable (cr : Crypto) (ctx : Context) {h : Bytes} {vm : VM} {k : Nat}

/-! ## Call-contract programs left unconverted -/

theorem length_callContractProgram (hh : h.length = 32) : (callContractProgram h).length = 38 := by
  simp [callContractProgram_eq hh, hh, bcrpTag]

/-- The call-contract program pushes its tag and its hash; it ends with a true verdict exactly
when the hash has a nonzero byte and 54 units of gas are left. -/
theorem callContract_accepts (hh : h.length = 32) (hg : GasInRange vm)
    (hprog : vm.program = callContractProgram h) (hpc : vm.pc = 0) :
    (∃ v, (loop cr ctx (k + 3)).run vm = .ok () v ∧ falseResult v = false) ↔
      54 ≤ vm.runLimit ∧ asBool h = true := by
  have hlen := length_callContractProgram hh
  obtain ⟨p₀, p₁⟩ := @parseOp_push_push bcrpTag h (by decide) (by decide) (by omega) (by omega)
  rw [← callContractProgram_eq hh] at p₀ p₁
  rw [hh] at p₁
  have htag : bcrpTag.length = 4 := rfl
  obtain ⟨hR₀, hcap⟩ := hg
  have hcap' := hcap
  unfold maxInt64 at hcap'
  have := stackCost_nonneg vm.dataStack
  constructor
  · rintro ⟨v, hrun, hf⟩
    -- DATA_4 "bcrp" at 0
    rw [loop_push cr ctx (by rw [hprog, hpc, hlen]; decide) (by rw [hprog, hpc]; exact p₀)
      (by decide) (by decide) ⟨hR₀, hcap⟩] at hrun
    obtain ⟨c₁, c₂, hrun⟩ := hrun
    simp (disch := decide) only [hpc, htag, Nat.reduceAdd, uint32_of_lt] at hrun
    -- DATA_32 at 5
    rw [loop_push cr ctx (by simp only [hprog, hlen]; decide) (by simp only [hprog]; exact p₁)
      (by decide) (by decide)
      ⟨by simp only; omega, by simp only [stackCost_cons, htag, maxInt64]; omega⟩] at hrun
    obtain ⟨d₁, d₂, hrun⟩ := hrun
    dsimp only at d₁ d₂
    simp (disch := decide) only [Nat.reduceAdd, uint32_of_lt] at hrun
    -- past the end
    rw [loop_succ_end cr ctx (by simp only [hprog, hlen]; decide)] at hrun
    subst hrun
    simp only [falseResult, Bool.not_eq_false'] at hf
    exact ⟨by simp only [hh, htag] at c₂ d₂; omega, hf⟩
  · rintro ⟨hR, hb⟩
    refine ⟨?v, ?hrun, ?hf⟩
    case hrun =>
      rw [loop_push cr ctx (by rw [hprog, hpc, hlen]; decide) (by rw [hprog, hpc]; exact p₀)
        (by decide) (by decide) ⟨hR₀, hcap⟩]
      refine ⟨by omega, by simp only [htag]; omega, ?_⟩
      simp (disch := decide) only [hpc, htag, Nat.reduceAdd, uint32_of_lt]
      rw [loop_push cr ctx (by simp only [hprog, hlen]; decide) (by simp only [hprog]; exact p₁)
        (by decide) (by decide)
        ⟨by simp only; omega, by simp only [stackCost_cons, htag, maxInt64]; omega⟩]
      refine ⟨by simp only; omega, by simp only [hh]; omega, ?_⟩
      simp (disch := decide) only [Nat.reduceAdd, uint32_of_lt]
      rw [loop_succ_end cr ctx (by simp only [hprog, hlen]; decide)]
    case hf => simp [falseResult, hb]

/-- Without a registered contract, `Verify` on a spend of a call-contract output succeeds for
any arguments whenever the contract hash has a nonzero byte and the gas covers the state data,
the arguments and 54 units. -/
theorem verify_callContract_unconverted {converter : Bytes → Option Bytes} {gasLimit : Int}
    (hv : ctx.vmVersion = 1) (hh : h.length = 32) (hconv : converter (callContractProgram h) = none)
    (hcode : ctx.code = convertProgram (callContractProgram h) converter)
    (h₀ : 0 ≤ gasLimit) (h₁ : gasLimit ≤ maxInt64) :
    (∃ g, verify cr ctx (k + 3) gasLimit = some (g, none)) ↔
      asBool h = true ∧ 54 + stackCost ctx.stateData + stackCost ctx.arguments ≤ gasLimit := by
  rw [convertProgram_callContractProgram hh, hconv, Option.getD_none] at hcode
  have := stackCost_nonneg ctx.stateData
  have := stackCost_nonneg ctx.arguments
  rw [verify_succeeds_iff cr ctx hv h₀ h₁]
  constructor
  · rintro ⟨hc, hacc⟩
    rw [callContract_accepts cr ctx hh (gasInRange_loadedVM ctx hc h₁) hcode rfl] at hacc
    obtain ⟨hR, hb⟩ := hacc
    dsimp only [loadedVM] at hR
    exact ⟨hb, by omega⟩
  · rintro ⟨hb, hR⟩
    have hc : stackCost ctx.stateData + stackCost ctx.arguments ≤ gasLimit := by omega
    exact ⟨hc, (callContract_accepts cr ctx hh (gasInRange_loadedVM ctx hc h₁) hcode rfl).mpr
      ⟨by dsimp only [loadedVM]; omega, hb⟩⟩

/-- An empty contract store registers nothing. -/
theorem programConverter_empty (prog : Bytes) : programConverter (fun _ => none) prog = none := by
  unfold programConverter getContract
  cases parseContractHash prog <;> rfl

/-! ## The segregated witness programs -/

/-- A spend of a call-contract output whose contract is not registered, with no arguments. -/
theorem verify_callContract_unconverted_empty :
    ∃ g, verify constCrypto (spendContext (convertProgram
      (callContractProgram (List.replicate 31 0 ++ [1])) (programConverter fun _ => none)) [] [])
      3 100 = some (g, none) :=
  (@verify_callContract_unconverted constCrypto _ (List.replicate 31 0 ++ [1]) 0 _ 100 rfl rfl
    (programConverter_empty _) rfl (by decide) (by decide)).mpr ⟨rfl, by simp [spendContext]⟩

/-- Against an empty contract store the converter finds no contract, and the spend succeeds with
no arguments at all. -/
theorem callContract_unregistered_counterexample :
    programConverter (fun _ => none) (callContractProgram (List.replicate 31 0 ++ [1])) = none ∧
    verify constCrypto (spendContext (convertProgram
      (callContractProgram (List.replicate 31 0 ++ [1])) (programConverter fun _ => none)) [] [])
      3 100 = some (46, none) :=
  ⟨rfl, by decide +kernel⟩

end KuskCore.Vm
