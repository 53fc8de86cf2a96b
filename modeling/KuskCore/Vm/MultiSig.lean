import KuskCore.Vm.Step
import KuskCore.GreedyMatch

/-!
# `CHECKMULTISIG`

`opCheckMultiSig` pops the key count `N`, charges `1024 * N`, pops the signature count `M`, the
`N` keys, the message and the `M` signatures, and scans keys and signatures together: a key that
verifies the current signature consumes it, and every comparison consumes a key. This scan is
`GreedyMatch.greedyMatch` (`matchSigs_eq_greedyMatch`), so the verdict is true exactly when every
key is 32 bytes long and the signatures embed in the keys along the verification predicate, in
pop order (`opCheckMultiSig_decides`). The predicate is the `ed25519Verify` of `Crypto`, which
nothing constrains.
-/

namespace KuskCore.Vm

open GoInt KuskCore.Checked EStateM GreedyMatch

variable (cr : Crypto)

/-- The deferred cost after deferred pops of `xs`, in pop order. -/
def popCost (d : Int) (xs : List Bytes) : Int := xs.foldl (fun d x => int64 (d + -(8 + x.length))) d

/-- The scan of `opCheckMultiSig` is the greedy match along signature verification. -/
theorem matchSigs_eq_greedyMatch (msg : Bytes) : ∀ pks sigs : List Bytes,
    matchSigs cr msg pks sigs = greedyMatch (fun pk sig => cr.ed25519Verify pk msg sig) pks sigs
  | [], sigs => by cases sigs <;> rfl
  | pk :: pks, [] => rfl
  | pk :: pks, sig :: sigs => by
    unfold matchSigs greedyMatch
    rw [matchSigs_eq_greedyMatch msg pks sigs, matchSigs_eq_greedyMatch msg pks (sig :: sigs)]

section Spec

variable {vm : VM}

/-- `k` deferred pops take the top `k` items, each refunded as a deferred cost. -/
theorem popN_run (xs rest : List Bytes) (h : vm.dataStack = xs ++ rest) :
    (popN xs.length).run vm =
      .ok xs { vm with dataStack := rest, deferredCost := popCost vm.deferredCost xs } := by
  induction xs generalizing vm with
  | nil =>
    simp only [List.nil_append] at h
    simp only [popN, popCost, List.foldl_nil, List.length_nil]
    rw [← h]
    rfl
  | cons x xs ih =>
    rw [List.cons_append] at h
    have hx := pop_run_cons true h
    simp only [if_true] at hx
    rw [List.length_cons, popN, run_bind_of_ok hx, run_bind_of_ok (ih ?_)]
    · rfl
    · rfl

/-- `1024 * N` is a checked `int64` product exactly when `N` is at most `2 ^ 53 - 1`. -/
theorem mulInt64_1024 {n : Nat} (h : 1024 * (n : Int) ≤ maxInt64) :
    mulInt64 (n : Int) 1024 = some ((n : Int) * 1024) := by
  have hs : int64Width.InRange ((n : Int) * 1024) := by
    unfold SignedWidth.InRange
    rw [int64Width_min, int64Width_max]
    unfold minInt64
    omega
  exact Iff.mpr mulSigned_eq_some_iff ⟨hs, rfl⟩

/-- A number past `int64` is a bad value. -/
theorem bigIntInt64_of_ge {n : Nat} (h : 2 ^ 63 ≤ n) : bigIntInt64 n = .error .badValue := by
  unfold bigIntInt64
  by_cases h64 : n < 2 ^ 64
  · rw [if_neg (not_not.mpr h64)]
    simp only [uint64, Nat.mod_eq_of_lt h64, int64_natCast_of_ge h h64]
    rw [if_pos (by omega)]
  · rw [if_pos h64]

/-- Popping a count: the item's number, deferred-refunded, as an `int64`. -/
theorem popInt64_run {x : Bytes} {rest : List Bytes} {n : Nat} (hs : vm.dataStack = x :: rest)
    (hx : asBigInt x = .ok n) (hn : n < 2 ^ 63) :
    (popBigInt true >>= fun n => liftErr (bigIntInt64 n)).run vm = .ok (n : Int)
      { vm with dataStack := rest, deferredCost := int64 (vm.deferredCost + -(8 + x.length)) } := by
  have hp : (popBigInt true).run vm = .ok n
      { vm with dataStack := rest, deferredCost := int64 (vm.deferredCost + -(8 + x.length)) } :=
    Iff.mpr popBigInt_eq_ok ⟨x, Iff.mpr pop_true_eq_ok ⟨rest, hs, rfl⟩, hx⟩
  rw [run_bind_of_ok hp, bigIntInt64_of_lt hn]
  rfl

/-- Popping a count of `2 ^ 63` or more is a bad value. -/
theorem popInt64_run_of_ge {x : Bytes} {rest : List Bytes} {n : Nat}
    (hs : vm.dataStack = x :: rest) (hx : asBigInt x = .ok n) (hn : 2 ^ 63 ≤ n) :
    (popBigInt true >>= fun n => liftErr (bigIntInt64 n)).run vm = .error (.err .badValue)
      { vm with dataStack := rest, deferredCost := int64 (vm.deferredCost + -(8 + x.length)) } := by
  have hp : (popBigInt true).run vm = .ok n
      { vm with dataStack := rest, deferredCost := int64 (vm.deferredCost + -(8 + x.length)) } :=
    Iff.mpr popBigInt_eq_ok ⟨x, Iff.mpr pop_true_eq_ok ⟨rest, hs, rfl⟩, hx⟩
  rw [run_bind_of_ok hp, bigIntInt64_of_ge hn]
  rfl

end Spec

section CheckMultiSig

variable {vm : VM} {nb mb msg : Bytes} {pks sigs rest : List Bytes} {N M : Nat}

/-- The machine once `N` is popped and its `1024 * N` paid. -/
def afterPubCost (vm : VM) (nb : Bytes) (N : Nat) (tail : List Bytes) : VM :=
  { vm with
    runLimit := int64 (vm.runLimit - N * 1024)
    dataStack := tail
    deferredCost := int64 (vm.deferredCost + -(8 + nb.length)) }

/-- The key count is popped and paid for; what follows reads the signature count. -/
theorem opCheckMultiSig_run_eq (hs : vm.dataStack = nb :: mb :: rest) (hN : asBigInt nb = .ok N)
    (hmax : 1024 * (N : Int) ≤ maxInt64) (hgas : 1024 * (N : Int) ≤ vm.runLimit) :
    (opCheckMultiSig cr).run vm = (do
      let numSigs ← popBigInt true >>= fun n => liftErr (bigIntInt64 n)
      if numSigs < 0 ∨ numSigs > (N : Int) ∨ ((N : Int) > 0 ∧ numSigs = 0) then throwErr .badValue
      else
        let pubkeyByteses ← popN (N : Int).toNat
        let msg ← pop true
        if msg.length ≠ 32 then throwErr .badValue
        else
          let sigs ← popN numSigs.toNat
          if pubkeyByteses.any (fun p => p.length ≠ 32) then pushBool false true
          else pushBool (matchSigs cr msg pubkeyByteses sigs).isEmpty true : VmM Unit).run
        (afterPubCost vm nb N (mb :: rest)) := by
  have hN63 : N < 2 ^ 63 := by unfold maxInt64 at hmax; omega
  unfold opCheckMultiSig
  rw [run_bind_of_ok (popInt64_run hs hN hN63)]
  simp only [mulInt64_1024 hmax, Int.natCast_nonneg, Int.not_lt.mpr, if_false]
  rw [run_bind_of_ok (applyCost_eq_ok (u := ()).mpr ⟨by dsimp only; omega, rfl⟩)]
  rfl

/-- On a well-formed stack with the gas for the keys, `CHECKMULTISIG` pushes the verdict of the
greedy scan, or false when a key is not 32 bytes long, with every popped item refunded and the
verdict charged, both deferred. -/
theorem opCheckMultiSig_run (hs : vm.dataStack = nb :: mb :: (pks ++ msg :: (sigs ++ rest)))
    (hN : asBigInt nb = .ok N) (hM : asBigInt mb = .ok M) (hlN : pks.length = N)
    (hlM : sigs.length = M) (hmsg : msg.length = 32) (hMN : 0 < M ∧ M ≤ N ∨ M = 0 ∧ N = 0)
    (hmax : 1024 * (N : Int) ≤ maxInt64) (hgas : 1024 * (N : Int) ≤ vm.runLimit) :
    (opCheckMultiSig cr).run vm =
      let b := !(pks.any fun p => p.length ≠ 32) && (matchSigs cr msg pks sigs).isEmpty
      .ok () { vm with
        runLimit := int64 (vm.runLimit - N * 1024)
        deferredCost := int64 (popCost vm.deferredCost (nb :: mb :: (pks ++ msg :: sigs)) +
          (8 + (boolBytes b).length))
        dataStack := boolBytes b :: rest } := by
  have hM63 : M < 2 ^ 63 := by unfold maxInt64 at hmax; omega
  rw [opCheckMultiSig_run_eq cr hs hN hmax hgas, run_bind_of_ok (popInt64_run rfl hM hM63)]
  -- the counts are in order: `0 < M ≤ N`, or none at all
  rw [if_neg (by omega)]
  rw [show (N : Int).toNat = pks.length by omega,
    run_bind_of_ok (popN_run pks (msg :: (sigs ++ rest)) ?_)]
  rotate_left
  · rfl
  rw [run_bind_of_ok (pop_run_cons true rfl), if_pos rfl]
  dsimp only
  rw [if_neg (by rw [hmsg]; exact not_not.mpr rfl), show (M : Int).toNat = sigs.length by omega,
    run_bind_of_ok (popN_run sigs rest ?_)]
  rotate_left
  · rfl
  -- the verdict is pushed with a deferred cost, whichever branch decides it
  have hcost : popCost vm.deferredCost (nb :: mb :: (pks ++ msg :: sigs)) =
      popCost (int64 (popCost (int64 (int64 (vm.deferredCost + -(8 + nb.length)) +
        -(8 + mb.length))) pks + -(8 + msg.length))) sigs := by
    simp only [popCost, List.foldl_cons, List.foldl_append]
  unfold pushBool
  split
  · -- a key of the wrong length: false, whatever the signatures
    rename_i hk
    rw [pushDataStack_run, if_pos rfl, hcost]
    simp only [hk]
    rfl
  · rename_i hk
    rw [pushDataStack_run, if_pos rfl, hcost]
    simp only [hk]
    rfl

/-- Counts out of order are a bad value, once the keys are paid for. -/
theorem opCheckMultiSig_run_badCount (hs : vm.dataStack = nb :: mb :: rest)
    (hN : asBigInt nb = .ok N) (hM : asBigInt mb = .ok M) (hmax : 1024 * (N : Int) ≤ maxInt64)
    (hgas : 1024 * (N : Int) ≤ vm.runLimit) (hbad : N < M ∨ 0 < N ∧ M = 0) :
    ∃ s, (opCheckMultiSig cr).run vm = .error (.err .badValue) s := by
  rw [opCheckMultiSig_run_eq cr hs hN hmax hgas]
  by_cases hM63 : M < 2 ^ 63
  · rw [run_bind_of_ok (popInt64_run rfl hM hM63), if_pos (by omega)]
    exact ⟨_, rfl⟩
  · -- a count past `int64` is refused when it is read
    rw [run_bind_of_error (popInt64_run_of_ge rfl hM (by omega))]
    exact ⟨_, rfl⟩

/-- A message that is not 32 bytes long is a bad value, once the keys are popped. -/
theorem opCheckMultiSig_run_badMessage
    (hs : vm.dataStack = nb :: mb :: (pks ++ msg :: (sigs ++ rest)))
    (hN : asBigInt nb = .ok N) (hM : asBigInt mb = .ok M) (hlN : pks.length = N)
    (hMN : 0 < M ∧ M ≤ N ∨ M = 0 ∧ N = 0) (hmsg : msg.length ≠ 32)
    (hmax : 1024 * (N : Int) ≤ maxInt64) (hgas : 1024 * (N : Int) ≤ vm.runLimit) :
    ∃ s, (opCheckMultiSig cr).run vm = .error (.err .badValue) s := by
  have hM63 : M < 2 ^ 63 := by unfold maxInt64 at hmax; omega
  rw [opCheckMultiSig_run_eq cr hs hN hmax hgas, run_bind_of_ok (popInt64_run rfl hM hM63),
    if_neg (by omega), show (N : Int).toNat = pks.length by omega,
    run_bind_of_ok (popN_run pks (msg :: (sigs ++ rest)) ?_)]
  rotate_left
  · rfl
  rw [run_bind_of_ok (pop_run_cons true rfl), if_pos rfl]
  dsimp only
  rw [if_pos hmsg]
  exact ⟨_, rfl⟩

/-- Without the gas for the keys, `CHECKMULTISIG` runs out before it reads anything else. -/
theorem opCheckMultiSig_run_outOfGas (hs : vm.dataStack = nb :: rest) (hN : asBigInt nb = .ok N)
    (hmax : 1024 * (N : Int) ≤ maxInt64) (hlt : vm.runLimit < 1024 * (N : Int)) :
    ∃ s, (opCheckMultiSig cr).run vm = .error (.err .runLimitExceeded) s := by
  have hN63 : N < 2 ^ 63 := by unfold maxInt64 at hmax; omega
  unfold opCheckMultiSig
  rw [run_bind_of_ok (popInt64_run hs hN hN63)]
  simp only [mulInt64_1024 hmax, Int.natCast_nonneg, Int.not_lt.mpr, if_false]
  have happ : (applyCost ((N : Int) * 1024)).run
      { vm with dataStack := rest, deferredCost := int64 (vm.deferredCost + -(8 + nb.length)) } =
      .error (.err .runLimitExceeded) { vm with
        dataStack := rest, deferredCost := int64 (vm.deferredCost + -(8 + nb.length))
        runLimit := 0 } := by
    rw [applyCost_run, if_pos (by dsimp only; omega)]
  rw [run_bind_of_error happ]
  exact ⟨_, rfl⟩

/-- `CHECKMULTISIG` decides ordered multi-signature satisfaction, with `ed25519Verify` any
predicate: on a stack of `N`, `M`, `N` keys, a message and `M` signatures, with the gas for the
keys, it pushes true exactly when every key is 32 bytes long and a strictly increasing map of
positions sends each signature to a key that verifies it; counts out of order, and a message that
is not 32 bytes long, are a bad value. -/
theorem opCheckMultiSig_decides
    (hs : vm.dataStack = nb :: mb :: (pks ++ msg :: (sigs ++ rest)))
    (hN : asBigInt nb = .ok N) (hM : asBigInt mb = .ok M) (hlN : pks.length = N)
    (hlM : sigs.length = M) (hmax : 1024 * (N : Int) ≤ maxInt64)
    (hgas : 1024 * (N : Int) ≤ vm.runLimit) :
    (msg.length = 32 → (0 < M ∧ M ≤ N ∨ M = 0 ∧ N = 0) → ∃ vm' b,
      (opCheckMultiSig cr).run vm = .ok () vm' ∧ vm'.dataStack = boolBytes b :: rest ∧
      (b = true ↔ (∀ pk ∈ pks, pk.length = 32) ∧
        EmbedsByIndex (fun pk sig => cr.ed25519Verify pk msg sig) pks sigs)) ∧
    (N < M ∨ 0 < N ∧ M = 0 → ∃ s, (opCheckMultiSig cr).run vm = .error (.err .badValue) s) ∧
    ((0 < M ∧ M ≤ N ∨ M = 0 ∧ N = 0) → msg.length ≠ 32 →
      ∃ s, (opCheckMultiSig cr).run vm = .error (.err .badValue) s) := by
  refine ⟨fun hmsg hMN => ?_, opCheckMultiSig_run_badCount cr hs hN hM hmax hgas,
    fun hMN hmsg => opCheckMultiSig_run_badMessage cr hs hN hM hlN hMN hmsg hmax hgas⟩
  refine ⟨_, _, opCheckMultiSig_run cr hs hN hM hlN hlM hmsg hMN hmax hgas, rfl, ?_⟩
  -- the verdict: no key of the wrong length, and the greedy scan leaves no signature
  rw [Bool.and_eq_true, Bool.not_eq_true', List.any_eq_false, List.isEmpty_iff,
    matchSigs_eq_greedyMatch, greedyMatch_eq_nil_iff_embedsByIndex]
  simp only [decide_eq_true_eq, not_not]

end CheckMultiSig

/-- `1 1 key msg sig`: one key of 32 zero bytes, a message of 32 zero bytes and the signature
`[1]`, with the gas for the key. -/
def oneOfOneVM : VM :=
  { program := [], pc := 0, nextPC := 0, runLimit := 1024, deferredCost := 0,
    expansionReserved := false, data := [], depth := 0,
    dataStack := [[1], [1], List.replicate 32 0, List.replicate 32 0, [1]], altStack := [],
    altStackNil := true }

theorem opCheckMultiSig_decides_oneOfOne :
    (List.length (List.replicate 32 (0 : UInt8)) = 32 → (0 < 1 ∧ 1 ≤ 1 ∨ 1 = 0 ∧ 1 = 0) →
      ∃ vm' b, (opCheckMultiSig constCrypto).run oneOfOneVM = .ok () vm' ∧ vm'.dataStack = boolBytes b :: [] ∧
      (b = true ↔ (∀ pk ∈ [List.replicate 32 (0 : UInt8)], pk.length = 32) ∧
        EmbedsByIndex (fun pk sig => constCrypto.ed25519Verify pk (List.replicate 32 0) sig)
          [List.replicate 32 0] [[1]])) ∧
    (1 < 1 ∨ 0 < 1 ∧ 1 = 0 → ∃ s, (opCheckMultiSig constCrypto).run oneOfOneVM = .error (.err .badValue) s) ∧
    ((0 < 1 ∧ 1 ≤ 1 ∨ 1 = 0 ∧ 1 = 0) → List.length (List.replicate 32 (0 : UInt8)) ≠ 32 →
      ∃ s, (opCheckMultiSig constCrypto).run oneOfOneVM = .error (.err .badValue) s) :=
  opCheckMultiSig_decides constCrypto rfl rfl rfl rfl rfl (by decide) (by decide)

end KuskCore.Vm
