import Mathlib
import KuskCore.GoMap
import KuskCore.Types.Block

/-!
# The transactions of a reorganisation

`Chain.reorganizeChain` of `protocol/block.go` moves the transaction pool along with the chain.
Each detached block puts its transactions but the coinbase into `txsToRestore`, by ID; each
attached block then takes its own out of `txsToRestore`, or puts them into `txsToRemove` when
they are not there. The pool then drops `txsToRemove` and validates `txsToRestore` again.

With the IDs of the attached transactions distinct, `txsToRestore` ends with, for each ID that
the detached blocks have and the attached ones do not, the last detached transaction of that ID,
and `txsToRemove` with each attached transaction whose ID no detached block has
(`reorganizeTxs_lookup`). `Sorted` says what the two maps hold after a prefix of the attached
transactions; each one keeps it (`Sorted.step`).

`b.Transactions[1:]` panics on a block without transactions; the store holds only blocks
`ValidateBlock` accepted, which have a coinbase, and here it is `tail`. A transaction's ID,
`tx.ID`, is the parameter `txID`.
-/

namespace KuskCore.Protocol

open KuskCore.Types

/-- A Go map of transactions by ID. -/
abbrev TxMap := AList fun _ : Hash => TxData

section Txs

variable (txID : TxData → Hash)

/-- The detach loop's body: `txsToRestore[tx.ID] = tx` for each transaction but the coinbase. -/
def restoreTxs (txsToRestore : TxMap) (b : Types.Block) : TxMap :=
  b.transactions.tail.foldl (fun m tx => m.insert (txID tx) tx) txsToRestore

/-- The attach loop's body for one transaction, on `(txsToRestore, txsToRemove)`. -/
def sortAttachedTx (maps : TxMap × TxMap) (tx : TxData) : TxMap × TxMap :=
  if txID tx ∉ maps.1 then (maps.1, maps.2.insert (txID tx) tx)
  else (maps.1.erase (txID tx), maps.2)

/-- The attach loop's body for one block. -/
def sortAttachedTxs (maps : TxMap × TxMap) (b : Types.Block) : TxMap × TxMap :=
  b.transactions.tail.foldl (sortAttachedTx txID) maps

/-- `txsToRestore` and `txsToRemove` once `reorganizeChain` has detached and attached its
blocks. -/
def reorganizeTxs (detachBlocks attachBlocks : List Types.Block) : TxMap × TxMap :=
  attachBlocks.foldl (sortAttachedTxs txID) (detachBlocks.foldl (restoreTxs txID) ∅, ∅)

/-- The transactions of a list of blocks but their coinbases, in order. -/
def nonCoinbaseTxs (blocks : List Types.Block) : List TxData :=
  blocks.flatMap fun b => b.transactions.tail

/-- `txsToRestore` after the detach loop holds, for each ID, the last detached transaction with
it. -/
theorem lookup_restoreTxs (detachBlocks : List Types.Block) (k : Hash) :
    (detachBlocks.foldl (restoreTxs txID) ∅).lookup k =
      (nonCoinbaseTxs detachBlocks).reverse.find? fun tx => txID tx = k := by
  have hfold : detachBlocks.foldl (restoreTxs txID) ∅ =
      (nonCoinbaseTxs detachBlocks).foldl (fun m tx => m.insert (txID tx) tx) ∅ := by
    rw [nonCoinbaseTxs, List.foldl_flatMap]
    rfl
  rw [hfold, GoMap.lookup_foldl_insert]
  simp

/-- What the maps hold after the attached transactions `done`, from the map `restore` the
detach loop left: `restore` without the IDs of `done`, and the transactions of `done` whose ID
`restore` lacks. -/
structure Sorted (restore : TxMap) (done : List TxData) (maps : TxMap × TxMap) : Prop where
  restore_lookup : ∀ k, maps.1.lookup k = if k ∈ done.map txID then none else restore.lookup k
  remove_lookup : ∀ k, maps.2.lookup k = if k ∈ restore then none else done.find? (txID · = k)

theorem sorted_nil (restore : TxMap) : Sorted txID restore [] (restore, ∅) where
  restore_lookup k := by simp
  remove_lookup k := by simp

variable {txID}

/-- A transaction of another ID does not change what the search for `k` finds. -/
theorem find?_append_of_ne {done : List TxData} {tx : TxData} {k : Hash} (hk : k ≠ txID tx) :
    (done ++ [tx]).find? (txID · = k) = done.find? (txID · = k) := by
  rw [List.find?_append]
  cases done.find? (txID · = k) <;> simp [Ne.symm hk]

/-- A transaction whose ID the loop has not met yet keeps `Sorted`. -/
theorem Sorted.step {restore : TxMap} {done : List TxData} {maps : TxMap × TxMap} {tx : TxData}
    (hS : Sorted txID restore done maps) (hnew : txID tx ∉ done.map txID) :
    Sorted txID restore (done ++ [tx]) (sortAttachedTx txID maps tx) := by
  -- the ID is in `txsToRestore` exactly when the detached blocks have it
  have hmem : txID tx ∈ maps.1 ↔ txID tx ∈ restore := by
    rw [← AList.lookup_isSome, ← AList.lookup_isSome, hS.restore_lookup, if_neg hnew]
  have hfind : done.find? (txID · = txID tx) = none := by
    simpa using hnew
  unfold sortAttachedTx
  split
  · -- a transaction the detached blocks lack goes to `txsToRemove`
    rename_i hout
    have hr : txID tx ∉ restore := mt hmem.mpr hout
    constructor
    · intro k
      rw [hS.restore_lookup]
      by_cases hk : k = txID tx
      · subst hk
        simp [hnew, AList.lookup_eq_none.mpr hr]
      · simp [hk]
    · intro k
      by_cases hk : k = txID tx
      · subst hk
        simp [AList.lookup_insert, hr, List.find?_append, hfind]
      · rw [AList.lookup_insert_ne hk, hS.remove_lookup, find?_append_of_ne hk]
  · -- a transaction of the detached blocks is restored no more
    rename_i hin
    have hr : txID tx ∈ restore := hmem.mp (not_not.mp hin)
    constructor
    · intro k
      by_cases hk : k = txID tx
      · subst hk
        simp [AList.lookup_erase]
      · rw [AList.lookup_erase_ne hk, hS.restore_lookup]
        simp [hk]
    · intro k
      rw [hS.remove_lookup]
      by_cases hk : k = txID tx
      · subst hk
        simp [hr]
      · rw [find?_append_of_ne hk]

/-- The attach loop over transactions of distinct IDs keeps `Sorted`. -/
theorem Sorted.foldl {restore : TxMap} :
    ∀ {done : List TxData} {maps : TxMap × TxMap} (txs : List TxData),
      ((done ++ txs).map txID).Nodup → Sorted txID restore done maps →
        Sorted txID restore (done ++ txs) (txs.foldl (sortAttachedTx txID) maps)
  | done, maps, [], _, hS => by simpa using hS
  | done, maps, tx :: txs, hnd, hS => by
    have hnew : txID tx ∉ done.map txID := by
      rw [List.map_append, List.map_cons] at hnd
      exact fun h => (List.nodup_append.mp hnd).2.2 _ h _ List.mem_cons_self rfl
    have hS' := hS.step hnew
    rw [List.foldl_cons]
    have hrest := Sorted.foldl txs (by simpa using hnd) hS'
    simpa using hrest

variable (txID)

/-- With the IDs of the attached transactions distinct, `reorganizeChain` sends back to the pool,
for each ID the detached blocks have and the attached ones do not, the last detached transaction
of that ID, and removes from the pool each attached transaction whose ID no detached block has. -/
theorem reorganizeTxs_lookup {detachBlocks attachBlocks : List Types.Block}
    (hnd : ((nonCoinbaseTxs attachBlocks).map txID).Nodup) (k : Hash) :
    (reorganizeTxs txID detachBlocks attachBlocks).1.lookup k =
      (if k ∈ (nonCoinbaseTxs attachBlocks).map txID then none
       else (nonCoinbaseTxs detachBlocks).reverse.find? fun tx => txID tx = k) ∧
    (reorganizeTxs txID detachBlocks attachBlocks).2.lookup k =
      (if k ∈ (nonCoinbaseTxs detachBlocks).map txID then none
       else (nonCoinbaseTxs attachBlocks).find? fun tx => txID tx = k) := by
  set restore := detachBlocks.foldl (restoreTxs txID) ∅
  have hfold : reorganizeTxs txID detachBlocks attachBlocks =
      (nonCoinbaseTxs attachBlocks).foldl (sortAttachedTx txID) (restore, ∅) := by
    rw [reorganizeTxs, nonCoinbaseTxs, List.foldl_flatMap]
    rfl
  have hS := Sorted.foldl (nonCoinbaseTxs attachBlocks) (by simpa using hnd)
    (sorted_nil txID restore)
  rw [List.nil_append] at hS
  -- a detached ID is one `restore` holds
  have hmem : k ∈ restore ↔ k ∈ (nonCoinbaseTxs detachBlocks).map txID := by
    rw [← AList.lookup_isSome, lookup_restoreTxs, List.find?_isSome]
    simp [List.mem_map]
  rw [hfold, hS.restore_lookup, hS.remove_lookup, lookup_restoreTxs]
  exact ⟨rfl, by simp only [hmem]⟩

end Txs

/-- The transaction of version `v`, with no inputs or outputs. -/
def versionTx (v : Nat) : TxData :=
  { version := v, serializedSize := 1, timeRange := 0, inputs := [], outputs := [] }

/-- The IDs of the samples: a transaction's version, repeated. -/
def versionID (tx : TxData) : Hash := Hash.ofByte (UInt8.ofNat tx.version)

/-- A detached block with transactions 1 and 2 after its coinbase. -/
def detachedSample : Types.Block :=
  ⟨⟨1, 1, Hash.zero, 0, [], [], Hash.zero⟩, [versionTx 0, versionTx 1, versionTx 2]⟩

/-- The block attached in its place, with transactions 2 and 3 after its coinbase. -/
def attachedSample : Types.Block :=
  ⟨⟨1, 1, Hash.zero, 0, [], [], Hash.zero⟩, [versionTx 0, versionTx 2, versionTx 3]⟩

/-- Transaction 1 goes back to the pool and transaction 3 leaves it. -/
theorem reorganizeTxs_sample :
    (reorganizeTxs versionID [detachedSample] [attachedSample]).1.lookup (versionID (versionTx 1)) =
        some (versionTx 1) ∧
      (reorganizeTxs versionID [detachedSample] [attachedSample]).2.lookup
        (versionID (versionTx 3)) = some (versionTx 3) := by
  have hnd : ((nonCoinbaseTxs [attachedSample]).map versionID).Nodup := by decide
  refine ⟨(reorganizeTxs_lookup versionID hnd _).1.trans ?_,
    (reorganizeTxs_lookup versionID hnd _).2.trans ?_⟩
  · decide
  · decide

end KuskCore.Protocol
