import Mathlib
import KuskCore.State.ApplyInPlace
import KuskCore.Database.UtxoStore
import KuskCore.Validation.Block

/-!
# The block builder

`blockBuilder` of `proposal/proposal.go` fills the block a validator proposes with the pool's
transactions. `applyTransactions` takes them in batches of `batchApplyNum`; `preValidateTxs`
validates a batch (`validation.ValidateTxs`) and then, one transaction after another while the
block's gas budget `gasLeft` is positive, loads the UTXOs a valid transaction spends into the
builder's view (`GetTransactionsUtxo`) and applies it there (`ApplyTransaction`), stopping at
the first valid one whose gas the budget cannot pay. A transaction that failed is removed from
the pool; the others go into the block. After each batch the builder stops once the timeout has
passed or the block holds more than `softMaxTxNum` transactions.

Whatever the pool holds, whatever `ValidateTx` says of each transaction and whenever the timeout
falls, the pool's transactions are handled at most once each, in the pool's order, and each
handled one goes either into the block, having passed `ValidateTx`, or out of the pool; the gas of
the block's transactions and `gasLeft` add up to `MaxBlockGas` with `gasLeft` never negative; and
the block holds at most `softMaxTxNum + batchApplyNum` transactions with its coinbase
(`applyTransactions_built`). `Built` is what the builder holds after a prefix of the pool,
kept by each batch (`Built.applyBatch`).

`ValidateTxs` returns each transaction's `ValidateTx` in order (`validateTxs_pool`); here that is
the parameter `validate`, and `bcTx` maps a pool transaction to the `bc.Tx` the view reads. The
store's `GetTransactionsUtxo` is `getTransactionsUtxo` on the store `db`. The timeout is read
from timers: `timedOut n` says whether it has passed after the batch `n`. `b.block.Transactions`
is `[nil]` and then the transactions taken; `transactions` holds the latter, and the coinbase's
slot, filled by `build` last, is the `+ 1` of the length test.
-/

namespace KuskCore.Proposal

open KuskCore.Types KuskCore.State KuskCore.Validation KuskCore.Database GoInt

def batchApplyNum : Nat := 16

def softMaxTxNum : Nat := 1024

/-- The error of a result of `preValidateTxs`: `ValidateTxs`' or the view's. -/
inductive PreValidateError where
  | validation (err : ValidationError)
  | view (err : ViewError)

/-- `validateTxResult`. -/
structure ValidateTxResult (T : Type) where
  tx : T
  err : Option PreValidateError

/-- The state of `blockBuilder` that `applyTransactions` changes, and the transactions it removed
from the pool. -/
structure BlockBuilder (T : Type) where
  transactions : List T
  utxoView : UtxoEntries
  gasLeft : Int
  removed : List T

/-- The builder as `build` hands it to `applyTransactionFromPool`. -/
def newBlockBuilder {T : Type} : BlockBuilder T := ⟨[], ∅, maxBlockGas, []⟩

section Builder

variable {T : Type} (bcTx : T → Tx) (validate : T → Except ValidationError GasState)
  (votePendingBlockNums : UInt64 → UInt64) (db : UtxoEntries)

/-- The loop of `preValidateTxs`, from the results so far, the gas left and the view. -/
def preValidateLoop (bcBlock : State.Block) :
    List T → List (ValidateTxResult T) → Int → UtxoEntries →
      List (ValidateTxResult T) × Int × UtxoEntries
  | [], results, gasLeft, view => (results, gasLeft, view)
  | tx :: txs, results, gasLeft, view =>
    if gasLeft ≤ 0 then (results, gasLeft, view)
    else
      match validate tx with
      | .error err =>
        preValidateLoop bcBlock txs (results ++ [⟨tx, some (.validation err)⟩]) gasLeft view
      | .ok gasStatus =>
        let view := getTransactionsUtxo db view [bcTx tx]
        if int64 (gasLeft - gasStatus.gasUsed) < 0 then (results, gasLeft, view)
        else
          match (applyTransactionInPlace votePendingBlockNums bcBlock (bcTx tx)).run view with
          | .error err view =>
            preValidateLoop bcBlock txs (results ++ [⟨tx, some (.view err)⟩]) gasLeft view
          | .ok _ view =>
            preValidateLoop bcBlock txs (results ++ [⟨tx, none⟩])
              (int64 (gasLeft - gasStatus.gasUsed)) view

/-- `preValidateTxs`: its results, the gas left, and the view it applied the batch to. -/
def preValidateTxs (bestHeight : UInt64) (txs : List T) (view : UtxoEntries) (gasLeft : Int) :
    List (ValidateTxResult T) × Int × UtxoEntries :=
  preValidateLoop bcTx validate votePendingBlockNums db ⟨bestHeight + 1, []⟩ txs [] gasLeft view

/-- The body of the loop of `applyTransactions` over the results of a batch. -/
def takeResult (b : BlockBuilder T) (result : ValidateTxResult T) : BlockBuilder T :=
  match result.err with
  | some _ => { b with removed := b.removed ++ [result.tx] }
  | none => { b with transactions := b.transactions ++ [result.tx] }

/-- What `applyTransactions` does with a full batch. -/
def applyBatch (bestHeight : UInt64) (batchTxs : List T) (b : BlockBuilder T) : BlockBuilder T :=
  let r := preValidateTxs bcTx validate votePendingBlockNums db bestHeight batchTxs b.utxoView
    b.gasLeft
  { r.1.foldl takeResult { b with utxoView := r.2.2 } with gasLeft := r.2.1 }

/-- The loop of `applyTransactions`, from the number of batches applied and the batch being
filled. -/
def applyTransactionsLoop (timedOut : Nat → Bool) (bestHeight : UInt64) :
    Nat → List T → List T → BlockBuilder T → BlockBuilder T
  | _, _, [], b => b
  | n, batchTxs, tx :: txs, b =>
    let batchTxs := batchTxs ++ [tx]
    if batchTxs.length < batchApplyNum ∧ txs ≠ [] then
      applyTransactionsLoop timedOut bestHeight n batchTxs txs b
    else
      let b := applyBatch bcTx validate votePendingBlockNums db bestHeight batchTxs b
      if timedOut n || decide (b.transactions.length + 1 > softMaxTxNum) then b
      else applyTransactionsLoop timedOut bestHeight (n + 1) [] txs b

/-- `applyTransactions`. -/
def applyTransactions (timedOut : Nat → Bool) (bestHeight : UInt64) (txs : List T)
    (b : BlockBuilder T) : BlockBuilder T :=
  applyTransactionsLoop bcTx validate votePendingBlockNums db timedOut bestHeight 0 [] txs b

/-! ## One batch -/

/-- The transactions of the results that passed. -/
def acceptedTxs (results : List (ValidateTxResult T)) : List T :=
  (results.filter (·.err.isNone)).map (·.tx)

/-- The transactions of the results that failed. -/
def failedTxs (results : List (ValidateTxResult T)) : List T :=
  (results.filter (·.err.isSome)).map (·.tx)

@[simp] theorem acceptedTxs_append_none (results : List (ValidateTxResult T)) (tx : T) :
    acceptedTxs (results ++ [⟨tx, none⟩]) = acceptedTxs results ++ [tx] := by
  simp [acceptedTxs]

@[simp] theorem acceptedTxs_append_some (results : List (ValidateTxResult T)) (tx : T)
    (err : PreValidateError) : acceptedTxs (results ++ [⟨tx, some err⟩]) = acceptedTxs results := by
  simp [acceptedTxs]

theorem foldl_takeResult (results : List (ValidateTxResult T)) :
    ∀ b : BlockBuilder T, results.foldl takeResult b =
      { b with
        transactions := b.transactions ++ acceptedTxs results
        removed := b.removed ++ failedTxs results } := by
  induction results with
  | nil => intro b; simp [acceptedTxs, failedTxs]
  | cons result results ih =>
    intro b
    rw [List.foldl_cons, ih]
    rcases result with ⟨tx, _ | err⟩ <;> simp [takeResult, acceptedTxs, failedTxs]

/-- The gas a transaction uses, as `ValidateTx` reports it. -/
def gasOf (tx : T) : Int :=
  match validate tx with
  | .ok gasStatus => gasStatus.gasUsed
  | .error _ => 0

/-- What one turn of `preValidateTxs` does: stop, or record a failure, or take the transaction,
valid and within the budget, with the budget lowered by its gas. -/
theorem preValidateLoop_cons (bcBlock : State.Block) (tx : T) (txs : List T)
    (results : List (ValidateTxResult T)) (gasLeft : Int) (view : UtxoEntries) :
    (∃ view', preValidateLoop bcTx validate votePendingBlockNums db bcBlock (tx :: txs) results
      gasLeft view = (results, gasLeft, view')) ∨
    (∃ err view', preValidateLoop bcTx validate votePendingBlockNums db bcBlock (tx :: txs) results
      gasLeft view = preValidateLoop bcTx validate votePendingBlockNums db bcBlock txs
        (results ++ [⟨tx, some err⟩]) gasLeft view') ∨
    (∃ gasStatus view', validate tx = .ok gasStatus ∧ 0 < gasLeft ∧
      0 ≤ int64 (gasLeft - gasStatus.gasUsed) ∧
      preValidateLoop bcTx validate votePendingBlockNums db bcBlock (tx :: txs) results gasLeft
        view = preValidateLoop bcTx validate votePendingBlockNums db bcBlock txs
          (results ++ [⟨tx, none⟩]) (int64 (gasLeft - gasStatus.gasUsed)) view') := by
  by_cases hgas : gasLeft ≤ 0
  · exact .inl ⟨view, by simp only [preValidateLoop, if_pos hgas]⟩
  cases hv : validate tx with
  | error err =>
    exact .inr (.inl ⟨.validation err, view, by simp only [preValidateLoop, if_neg hgas, hv]⟩)
  | ok gasStatus =>
    set view₁ := getTransactionsUtxo db view [bcTx tx]
    by_cases hbudget : int64 (gasLeft - gasStatus.gasUsed) < 0
    · exact .inl ⟨view₁, by simp only [preValidateLoop, if_neg hgas, hv, if_pos hbudget, view₁]⟩
    cases happly : (applyTransactionInPlace votePendingBlockNums bcBlock (bcTx tx)).run view₁ with
    | error err view₂ =>
      refine .inr (.inl ⟨.view err, view₂, ?_⟩)
      simp only [preValidateLoop, if_neg hgas, hv, if_neg hbudget]
      rw [happly]
    | ok u view₂ =>
      refine .inr (.inr ⟨gasStatus, view₂, rfl, by omega, by omega, ?_⟩)
      simp only [preValidateLoop, if_neg hgas, hv, if_neg hbudget]
      rw [happly]

/-- `preValidateTxs` gives a result to a prefix of its batch, in order, and takes only valid
transactions. -/
theorem preValidateLoop_results (bcBlock : State.Block) :
    ∀ (txs : List T) (results : List (ValidateTxResult T)) (gasLeft : Int) (view : UtxoEntries),
      ∃ new, (preValidateLoop bcTx validate votePendingBlockNums db bcBlock txs results gasLeft
          view).1 = results ++ new ∧ (new.map (·.tx)).IsPrefix txs ∧
        ∀ tx ∈ acceptedTxs new, ∃ gasStatus, validate tx = .ok gasStatus
  | [], results, gasLeft, view =>
    ⟨[], by simp [preValidateLoop], List.nil_prefix, by simp [acceptedTxs]⟩
  | tx :: txs, results, gasLeft, view => by
    rcases preValidateLoop_cons bcTx validate votePendingBlockNums db bcBlock tx txs results gasLeft
      view with ⟨view', h⟩ | ⟨err, view', h⟩ | ⟨gasStatus, view', hv, -, -, h⟩
    · exact ⟨[], by simp [h], List.nil_prefix, by simp [acceptedTxs]⟩
    · obtain ⟨new, hnew, hpre, hvalid⟩ :=
        preValidateLoop_results bcBlock txs (results ++ [⟨tx, some err⟩]) gasLeft view'
      refine ⟨⟨tx, some err⟩ :: new, by simp [h, hnew], by simpa using hpre, ?_⟩
      simpa [acceptedTxs] using hvalid
    · obtain ⟨new, hnew, hpre, hvalid⟩ := preValidateLoop_results bcBlock txs
        (results ++ [⟨tx, none⟩]) (int64 (gasLeft - gasStatus.gasUsed)) view'
      refine ⟨⟨tx, none⟩ :: new, by simp [h, hnew], by simpa using hpre, ?_⟩
      intro t ht
      simp only [acceptedTxs, List.filter_cons, Option.isNone_none, if_true, List.map_cons,
        List.mem_cons] at ht
      rcases ht with rfl | ht
      · exact ⟨gasStatus, hv⟩
      · exact hvalid t ht

/-- Within the budget, a gas use of `int64` range subtracts without a wrap. -/
theorem int64_sub_of_nonneg {gasLeft gasUsed : Int} (hpos : 0 < gasLeft) (hle : gasLeft ≤ maxInt64)
    (hmin : minInt64 ≤ gasUsed) (hmax : gasUsed ≤ maxInt64)
    (h : 0 ≤ int64 (gasLeft - gasUsed)) : int64 (gasLeft - gasUsed) = gasLeft - gasUsed := by
  unfold minInt64 maxInt64 at *
  by_cases hwrap : 2 ^ 63 ≤ gasLeft - gasUsed
  · rw [int64_of_ge hwrap (by omega)] at h
    omega
  · exact int64_of_le (by omega) (by omega)

section Gas

-- `GasState.GasUsed` is an `int64`
variable (hgas : ∀ tx gasStatus, validate tx = .ok gasStatus →
  minInt64 ≤ gasStatus.gasUsed ∧ gasStatus.gasUsed ≤ maxInt64)
include hgas

/-- `preValidateTxs` takes transactions only while the budget pays their gas: the gas of those
it takes and what is left add up to the budget it was given, and what is left is not
negative. -/
theorem preValidateLoop_gas (bcBlock : State.Block) :
    ∀ (txs : List T) (results : List (ValidateTxResult T)) (gasLeft : Int) (view : UtxoEntries),
      0 ≤ gasLeft → gasLeft ≤ maxInt64 →
      ((acceptedTxs (preValidateLoop bcTx validate votePendingBlockNums db bcBlock txs results
          gasLeft view).1).map (gasOf validate)).sum +
        (preValidateLoop bcTx validate votePendingBlockNums db bcBlock txs results gasLeft view).2.1 =
          ((acceptedTxs results).map (gasOf validate)).sum + gasLeft ∧
      0 ≤ (preValidateLoop bcTx validate votePendingBlockNums db bcBlock txs results gasLeft
        view).2.1 ∧
      (preValidateLoop bcTx validate votePendingBlockNums db bcBlock txs results gasLeft
        view).2.1 ≤ maxInt64
  | [], results, gasLeft, view, h0, hmax => by simp [preValidateLoop, h0, hmax]
  | tx :: txs, results, gasLeft, view, h0, hmax => by
    rcases preValidateLoop_cons bcTx validate votePendingBlockNums db bcBlock tx txs results gasLeft
      view with ⟨view', h⟩ | ⟨err, view', h⟩ | ⟨gasStatus, view', hv, hpos, hbudget, h⟩
    · simp [h, h0, hmax]
    · rw [h]
      have hrest :=
        preValidateLoop_gas bcBlock txs (results ++ [⟨tx, some err⟩]) gasLeft view' h0 hmax
      rwa [acceptedTxs_append_some] at hrest
    · -- the budget paid the transaction's gas without a wrap
      obtain ⟨hmin, hmax'⟩ := hgas tx gasStatus hv
      have hsub := int64_sub_of_nonneg hpos hmax hmin hmax' hbudget
      have hgasOf : gasOf validate tx = gasStatus.gasUsed := by simp [gasOf, hv]
      rw [h]
      have hwrap := int64_lt (gasLeft - gasStatus.gasUsed)
      obtain ⟨hsum, hnonneg, hle⟩ := preValidateLoop_gas bcBlock txs (results ++ [⟨tx, none⟩]) _
        view' hbudget (by unfold maxInt64; omega)
      refine ⟨?_, hnonneg, hle⟩
      rw [hsum, hsub, acceptedTxs_append_none, List.map_append, List.sum_append]
      simp [hgasOf]

end Gas

/-! ## The whole build -/

/-- What the builder holds after the batches of `processed`: the results so far, of the pool's
transactions in order and each at most once, split between the block and the removed; only valid
transactions in the block; and the block's gas within `MaxBlockGas`. -/
structure Built (processed : List T) (b : BlockBuilder T) : Prop where
  results : ∃ results : List (ValidateTxResult T), (results.map (·.tx)).Sublist processed ∧
    b.transactions = acceptedTxs results ∧ b.removed = failedTxs results
  valid : ∀ tx ∈ b.transactions, ∃ gasStatus, validate tx = .ok gasStatus
  gas_eq : (b.transactions.map (gasOf validate)).sum + b.gasLeft = maxBlockGas
  gasLeft_nonneg : 0 ≤ b.gasLeft
  gasLeft_le : b.gasLeft ≤ maxInt64

theorem built_new : Built validate [] (newBlockBuilder : BlockBuilder T) where
  results := ⟨[], by simp, rfl, rfl⟩
  valid := by simp [newBlockBuilder]
  gas_eq := by simp [newBlockBuilder]
  gasLeft_nonneg := by simp [newBlockBuilder]
  gasLeft_le := by simp [newBlockBuilder, maxBlockGas, maxInt64]

variable {validate} in
theorem Built.mono {processed processed' : List T} {b : BlockBuilder T}
    (hB : Built validate processed b) (hsub : processed.Sublist processed') :
    Built validate processed' b where
  results := by
    obtain ⟨results, hres, htx, hrem⟩ := hB.results
    exact ⟨results, hres.trans hsub, htx, hrem⟩
  valid := hB.valid
  gas_eq := hB.gas_eq
  gasLeft_nonneg := hB.gasLeft_nonneg
  gasLeft_le := hB.gasLeft_le

theorem applyBatch_eq (bestHeight : UInt64) (batchTxs : List T) (b : BlockBuilder T) :
    applyBatch bcTx validate votePendingBlockNums db bestHeight batchTxs b =
      { transactions := b.transactions ++ acceptedTxs
          (preValidateTxs bcTx validate votePendingBlockNums db bestHeight batchTxs b.utxoView
            b.gasLeft).1
        utxoView := (preValidateTxs bcTx validate votePendingBlockNums db bestHeight batchTxs
          b.utxoView b.gasLeft).2.2
        gasLeft := (preValidateTxs bcTx validate votePendingBlockNums db bestHeight batchTxs
          b.utxoView b.gasLeft).2.1
        removed := b.removed ++ failedTxs
          (preValidateTxs bcTx validate votePendingBlockNums db bestHeight batchTxs b.utxoView
            b.gasLeft).1 } := by
  rw [applyBatch, foldl_takeResult]

section Gas

variable (hgas : ∀ tx gasStatus, validate tx = .ok gasStatus →
  minInt64 ≤ gasStatus.gasUsed ∧ gasStatus.gasUsed ≤ maxInt64)
include hgas

/-- A batch keeps `Built`, and adds at most its own length to the block. -/
theorem Built.applyBatch {processed : List T} {b : BlockBuilder T} (hB : Built validate processed b)
    (bestHeight : UInt64) (batchTxs : List T) :
    Built validate (processed ++ batchTxs)
        (applyBatch bcTx validate votePendingBlockNums db bestHeight batchTxs b) ∧
      (applyBatch bcTx validate votePendingBlockNums db bestHeight batchTxs b).transactions.length ≤
        b.transactions.length + batchTxs.length := by
  rw [applyBatch_eq, preValidateTxs]
  set r := preValidateLoop bcTx validate votePendingBlockNums db ⟨bestHeight + 1, []⟩ batchTxs []
    b.gasLeft b.utxoView with hr
  obtain ⟨results, hres, htx, hrem⟩ := hB.results
  obtain ⟨new, hnew, hpre, hvalid⟩ := preValidateLoop_results bcTx validate votePendingBlockNums db
    ⟨bestHeight + 1, []⟩ batchTxs [] b.gasLeft b.utxoView
  obtain ⟨hsum, hnonneg, hle⟩ := preValidateLoop_gas bcTx validate votePendingBlockNums db hgas
    ⟨bestHeight + 1, []⟩ batchTxs [] b.gasLeft b.utxoView hB.gasLeft_nonneg hB.gasLeft_le
  rw [← hr, List.nil_append] at hnew
  rw [← hr, hnew] at hsum
  simp only [acceptedTxs, List.filter_nil, List.map_nil, List.sum_nil, zero_add] at hsum
  -- the new results are for a prefix of the batch, so the block takes at most the batch
  have hlen : (acceptedTxs new).length ≤ batchTxs.length := by
    calc (acceptedTxs new).length ≤ new.length := by
          simpa [acceptedTxs] using List.length_filter_le _ new
      _ = (new.map (·.tx)).length := (List.length_map _).symm
      _ ≤ batchTxs.length := hpre.length_le
  rw [hnew]
  refine ⟨⟨⟨results ++ new, ?_, ?_, ?_⟩, ?_, ?_, hnonneg, hle⟩, ?_⟩
  · rw [List.map_append]
    exact hres.append hpre.sublist
  · simp [htx, acceptedTxs]
  · simp [hrem, failedTxs]
  · intro tx htx'
    rcases List.mem_append.mp htx' with h | h
    · exact hB.valid tx h
    · exact hvalid tx h
  · rw [List.map_append, List.sum_append, ← hB.gas_eq, ← hsum]
    simp only [acceptedTxs]
    ring
  · simp only [List.length_append]
    omega

/-- The loop of `applyTransactions` keeps `Built` over the pool's transactions it has gone
through, and the block it ends with is at most one batch past `softMaxTxNum`. -/
theorem Built.applyTransactionsLoop (timedOut : Nat → Bool) (bestHeight : UInt64) :
    ∀ (txs : List T) (n : Nat) (batchTxs processed : List T) (b : BlockBuilder T),
      Built validate processed b → b.transactions.length + 1 ≤ softMaxTxNum →
      batchTxs.length < batchApplyNum →
      Built validate (processed ++ batchTxs ++ txs) (applyTransactionsLoop bcTx validate
          votePendingBlockNums db timedOut bestHeight n batchTxs txs b) ∧
        (applyTransactionsLoop bcTx validate votePendingBlockNums db timedOut bestHeight n batchTxs
          txs b).transactions.length + 1 ≤ softMaxTxNum + batchApplyNum
  | [], n, batchTxs, processed, b, hB, hsoft, _ => by
    simp only [Proposal.applyTransactionsLoop, List.append_nil]
    exact ⟨hB.mono (List.sublist_append_left _ _), by omega⟩
  | tx :: txs, n, batchTxs, processed, b, hB, hsoft, hbatch => by
    simp only [Proposal.applyTransactionsLoop]
    have hassoc : processed ++ batchTxs ++ tx :: txs = processed ++ (batchTxs ++ [tx]) ++ txs := by
      simp
    rw [hassoc]
    split
    · -- the batch is not full yet
      rename_i hmore
      exact Built.applyTransactionsLoop timedOut bestHeight txs n _ processed b hB hsoft hmore.1
    · -- the full batch is applied
      obtain ⟨hB', hlen⟩ := hB.applyBatch bcTx validate votePendingBlockNums db hgas bestHeight
        (batchTxs ++ [tx])
      have hlen' : (batchTxs ++ [tx]).length ≤ batchApplyNum := by
        simp only [List.length_append, List.length_singleton]
        omega
      split
      · exact ⟨hB'.mono (List.sublist_append_left _ _), by omega⟩
      · rename_i hgo
        simp only [Bool.or_eq_true, decide_eq_true_eq, not_or] at hgo
        have h := Built.applyTransactionsLoop timedOut bestHeight txs (n + 1) [] _ _ hB'
          (by omega) (by simp [batchApplyNum])
        simpa using h

/-- The transactions a proposer takes from the pool: each pool transaction is handled at most
once and in the pool's order, and goes either into the block, having passed `ValidateTx`, or out
of the pool; the gas of the block's transactions and the gas left add up to `MaxBlockGas`, the
gas left never negative; and the block holds at most `softMaxTxNum + batchApplyNum` transactions
with its coinbase. -/
theorem applyTransactions_built (timedOut : Nat → Bool) (bestHeight : UInt64) (txs : List T) :
    Built validate txs (applyTransactions bcTx validate votePendingBlockNums db timedOut bestHeight
        txs newBlockBuilder) ∧
      (applyTransactions bcTx validate votePendingBlockNums db timedOut bestHeight txs
        newBlockBuilder).transactions.length + 1 ≤ softMaxTxNum + batchApplyNum := by
  have h := Built.applyTransactionsLoop bcTx validate votePendingBlockNums db hgas timedOut
    bestHeight txs 0 [] [] newBlockBuilder (built_new validate)
    (by simp [newBlockBuilder, softMaxTxNum]) (by simp [batchApplyNum])
  simpa [applyTransactions] using h

end Gas

end Builder

/-- Every transaction valid, with 100 gas used. -/
def hundredGas (_ : Tx) : Except ValidationError GasState := .ok ⟨0, 0, 100, 0⟩

/-- A pool of three transactions without inputs. -/
def samplePool : List Tx :=
  [⟨Hash.ofByte 1, [], [], []⟩, ⟨Hash.ofByte 2, [], [], []⟩, ⟨Hash.ofByte 3, [], [], []⟩]

theorem applyTransactions_built_samplePool :
    (∀ tx gasStatus, hundredGas tx = .ok gasStatus →
      minInt64 ≤ gasStatus.gasUsed ∧ gasStatus.gasUsed ≤ maxInt64) ∧
    Built hundredGas samplePool
      (applyTransactions id hundredGas (fun _ => 0) ∅ (fun _ => false) 7 samplePool
        newBlockBuilder) := by
  have hgas : ∀ tx gasStatus, hundredGas tx = .ok gasStatus →
      minInt64 ≤ gasStatus.gasUsed ∧ gasStatus.gasUsed ≤ maxInt64 := by
    intro tx gasStatus h
    simp only [hundredGas, Except.ok.injEq] at h
    subst h
    simp [minInt64, maxInt64]
  exact ⟨hgas, (applyTransactions_built id hundredGas (fun _ => 0) ∅ hgas (fun _ => false) 7
    samplePool).1⟩

end KuskCore.Proposal
