import KuskCore.State.UtxoView

/-!
# The stored UTXO set

`database/utxo_view.go`. The store keeps one `UtxoEntry` per output ID, here decoded (the
protobuf encoding and its unmarshal error are not modelled). `getTransactionsUtxo` loads into a
view the stored entries of the transactions' prevouts that the view does not hold yet, and
`saveUtxoView` writes a view back: it deletes a spent entry unless it is a coinbase output's,
which stays stored as spent (`lookup_getTransactionsUtxo`, `lookup_saveUtxoView`).

A block attached through the store and then detached through it, as `Chain.reorganizeChain`
does with one block each way (`saveUtxoView_attachDetach`): an output the block does not spend
keeps its entry, and so does a coinbase output it spends, whose spent entry the store kept. A
normal or vote output it spends was deleted from the store, and `detachSpendUtxo` recreates it
unspent with height zero. An output the block records ends deleted.
-/

namespace KuskCore.Database

open KeyedUpdates KuskCore.Types KuskCore.State

/-- The body of `getTransactionsUtxo`'s loop at one prevout: a prevout the view holds is
skipped, and one the store holds is loaded. -/
def loadUtxo (db : UtxoEntries) (view : UtxoEntries) (prevout : Hash) : UtxoEntries :=
  if prevout ∈ view then view
  else
    match db.lookup prevout with
    | some utxo => view.insert prevout utxo
    | none => view

/-- `getTransactionsUtxo`. -/
def getTransactionsUtxo (db : UtxoEntries) (view : UtxoEntries) (txs : List Tx) : UtxoEntries :=
  txs.foldl (fun view tx => tx.spentOutputIDs.foldl (loadUtxo db) view) view

/-- The body of `saveUtxoView`'s loop: a spent entry other than a coinbase output's is deleted,
any other is set. -/
def storedEntry (entry : UtxoEntry) : Option UtxoEntry :=
  if entry.spent ∧ entry.type ≠ .coinbase then none else some entry

/-- `saveUtxoView`, with its batch written to the store. -/
def saveUtxoView (db : UtxoEntries) (view : UtxoEntries) : UtxoEntries :=
  putEntries (fun _ => storedEntry) view.entries db

/-! ## Loading and saving -/

theorem lookup_loadUtxo (db view : UtxoEntries) (prevout k : Hash) :
    (loadUtxo db view prevout).lookup k =
      if k = prevout ∧ view.lookup k = none then db.lookup k else view.lookup k := by
  by_cases hk : k = prevout
  · subst hk
    by_cases hm : k ∈ view
    · -- a prevout the view holds is not loaded again
      have hne : view.lookup k ≠ none := fun h => AList.lookup_eq_none.mp h hm
      rw [loadUtxo, if_pos hm, if_neg fun h => hne h.2]
    · have hnone : view.lookup k = none := AList.lookup_eq_none.mpr hm
      rw [loadUtxo, if_neg hm, if_pos ⟨rfl, hnone⟩]
      cases db.lookup k with
      | some utxo => exact AList.lookup_insert view
      | none => exact hnone
  · rw [if_neg fun h => hk h.1, loadUtxo]
    split
    · rfl
    · split
      · exact AList.lookup_insert_ne hk
      · rfl

theorem lookup_foldl_loadUtxo (db : UtxoEntries) (k : Hash) :
    ∀ (prevouts : List Hash) (view : UtxoEntries),
      (prevouts.foldl (loadUtxo db) view).lookup k =
        if k ∈ prevouts ∧ view.lookup k = none then db.lookup k else view.lookup k
  | [], view => by simp
  | p :: ps, view => by
    rw [List.foldl_cons, lookup_foldl_loadUtxo db k ps, lookup_loadUtxo]
    -- once loaded, the view holds the stored entry, and later prevouts leave it
    by_cases hv : view.lookup k = none
    · by_cases hk : k = p
      · subst hk
        simp [hv]
      · simp [hv, hk]
    · simp [hv]

/-- A view loads the stored entry of every prevout it does not hold. -/
theorem lookup_getTransactionsUtxo (db view : UtxoEntries) (txs : List Tx) (k : Hash) :
    (getTransactionsUtxo db view txs).lookup k =
      if k ∈ txs.flatMap Tx.spentOutputIDs ∧ view.lookup k = none then db.lookup k
      else view.lookup k := by
  rw [getTransactionsUtxo, ← List.foldl_flatMap, lookup_foldl_loadUtxo]

theorem lookup_getTransactionsUtxo_empty (db : UtxoEntries) (block : Block) (k : Hash) :
    (getTransactionsUtxo db ∅ block.transactions).lookup k =
      if k ∈ block.spentOutputIDs then db.lookup k else none := by
  rw [lookup_getTransactionsUtxo, AList.lookup_empty]
  simp [Block.spentOutputIDs]

/-- The store after a save holds what the view's entries leave, and elsewhere what it held. -/
theorem lookup_saveUtxoView (db view : UtxoEntries) (k : Hash) :
    (saveUtxoView db view).lookup k =
      match view.lookup k with
      | some entry => storedEntry entry
      | none => db.lookup k := by
  have hlookup : view.entries.dlookup k = view.lookup k := rfl
  rw [saveUtxoView, lookup_putEntries _ k view.entries db view.nodupKeys, hlookup]
  cases view.lookup k <;> rfl

theorem storedEntry_of_unspent {entry : UtxoEntry} (h : entry.spent = false) :
    storedEntry entry = some entry := by
  simp [storedEntry, h]

theorem storedEntry_spent (entry : UtxoEntry) :
    storedEntry { entry with spent := true } =
      if entry.type = .coinbase then some { entry with spent := true } else none := by
  by_cases h : entry.type = .coinbase <;> simp [storedEntry, h]

/-! ## A block attached and detached -/

/-- An output the store holds unspent is not one the block records, whose result IDs the store
does not hold. -/
theorem not_mem_createdIDs_of_lookup {db : UtxoEntries} {block : Block}
    (hfresh : ∀ r ∈ block.resultIds, db.lookup r = none) {p : Hash} {e : UtxoEntry}
    (hp : db.lookup p = some e) : p ∉ block.createdIDs := fun hc => by
  have hnone := hfresh p (Block.mem_resultIds_of_mem_createdIDs hc)
  rw [hp] at hnone
  cases hnone

theorem saveUtxoView_attachDetach (votePendingBlockNums : UInt64 → UInt64) (db : UtxoEntries)
    (block : Block) (hnd : block.resultIds.Nodup)
    (hfresh : ∀ r ∈ block.resultIds, db.lookup r = none) (view view' : UtxoEntries)
    (ha : applyBlock votePendingBlockNums block (getTransactionsUtxo db ∅ block.transactions) =
      .ok view)
    (hd : detachBlock block (getTransactionsUtxo (saveUtxoView db view) ∅ block.transactions) =
      .ok view') :
    (∀ p e, db.lookup p = some e → e.spent = false →
      ((e.type = .coinbase ∨ p ∉ block.spentOutputIDs) →
        (saveUtxoView (saveUtxoView db view) view').lookup p = some e) ∧
      (e.type ≠ .coinbase → p ∈ block.spentOutputIDs →
        ∃ t, (saveUtxoView (saveUtxoView db view) view').lookup p =
          some (newUtxoEntry t 0 false))) ∧
    ∀ r ∈ block.createdIDs, (saveUtxoView (saveUtxoView db view) view').lookup r = none := by
  refine ⟨fun p e hp hs => ?_, fun r hr => ?_⟩
  · have hpc := not_mem_createdIDs_of_lookup hfresh hp
    rcases applyBlock_lookup_of_not_created votePendingBlockNums ha hpc with
      ⟨hns, hv⟩ | ⟨hc, hspend⟩
    · -- a prevout the block does not spend is loaded by neither view
      have hw := detachBlock_lookup_of_not_spent hd hpc hns
      rw [lookup_getTransactionsUtxo_empty, if_neg hns] at hv hw
      have hkept : (saveUtxoView (saveUtxoView db view) view').lookup p = some e := by
        rw [lookup_saveUtxoView, hw, lookup_saveUtxoView, hv]
        exact hp
      exact ⟨fun _ => hkept, fun _ hm => absurd hm hns⟩
    · -- spent once: the store keeps the spent entry only for a coinbase output
      have hmem : p ∈ block.spentOutputIDs := List.count_pos_iff.mp (by omega)
      rw [lookup_getTransactionsUtxo_empty, if_pos hmem, hp] at hspend
      obtain ⟨e', he', -, hv⟩ := spendEntry_eq_ok hspend
      cases he'
      obtain ⟨r, hr⟩ := detachBlock_lookup_of_spent_once hd hpc hc
      rw [lookup_getTransactionsUtxo_empty, if_pos hmem, lookup_saveUtxoView, hv] at hr
      dsimp only at hr
      rw [storedEntry_spent] at hr
      by_cases hcb : e.type = .coinbase
      · rw [if_pos hcb] at hr
        obtain ⟨t, -, ⟨e'', he'', -, hw⟩ | ⟨hnone, -⟩⟩ := unspendEntry_eq_ok hr
        · cases he''
          have hrestored : ({ { e with spent := true } with spent := false } : UtxoEntry) = e := by
            cases e
            cases hs
            rfl
          have hkept : (saveUtxoView (saveUtxoView db view) view').lookup p = some e := by
            rw [lookup_saveUtxoView, hw, hrestored]
            exact storedEntry_of_unspent hs
          exact ⟨fun _ => hkept, fun hnc => absurd hcb hnc⟩
        · cases hnone
      · rw [if_neg hcb] at hr
        obtain ⟨t, -, ⟨e'', he'', -, -⟩ | ⟨-, hw⟩⟩ := unspendEntry_eq_ok hr
        · cases he''
        · have hnew : (saveUtxoView (saveUtxoView db view) view').lookup p =
              some (newUtxoEntry t 0 false) := by
            rw [lookup_saveUtxoView, hw]
            exact storedEntry_of_unspent rfl
          refine ⟨fun h => ?_, fun _ _ => ⟨t, hnew⟩⟩
          rcases h with h | h
          · exact absurd h hcb
          · exact absurd hmem h
  · -- an output the block records: neither the store nor the first view holds it
    have hr0 : (getTransactionsUtxo db ∅ block.transactions).lookup r = none := by
      rw [lookup_getTransactionsUtxo_empty]
      split
      · exact hfresh r (Block.mem_resultIds_of_mem_createdIDs hr)
      · rfl
    obtain ⟨t, htc, hw⟩ := detachBlock_lookup_of_created votePendingBlockNums hnd hr hr0 ha hd
    rw [lookup_saveUtxoView, hw]
    simp [storedEntry, newUtxoEntry, htc]

/-! ## A normal output spent and restored -/

/-- A hash of 32 equal bytes. -/
def byteHash (b : UInt8) : Hash := Hash.ofByte b

/-- A coinbase transaction with one output. -/
def coinbaseTx : Tx where
  id := byteHash 0
  spentOutputIDs := []
  resultIds := [byteHash 3]
  entries := [(byteHash 3, .originalOutput 1)]

/-- A transaction that spends the output `byteHash 1` and makes the output `byteHash 2`. -/
def spendTx : Tx where
  id := byteHash 4
  spentOutputIDs := [byteHash 1]
  resultIds := [byteHash 2]
  entries := [(byteHash 1, .originalOutput 1), (byteHash 2, .originalOutput 1)]

def spendBlock : Block := { height := 10, transactions := [coinbaseTx, spendTx] }

/-- A store that holds one normal output, made at height 5. -/
def heightFiveStore : UtxoEntries := (∅ : UtxoEntries).insert (byteHash 1) (newUtxoEntry .normal 5 false)

/-- The view after `spendBlock` is attached, with a vote lock of 10 blocks. -/
def attachedView : UtxoEntries :=
  ((applyBlock (fun _ => 10) spendBlock
    (getTransactionsUtxo heightFiveStore ∅ spendBlock.transactions)).toOption).getD ∅

/-- The view after `spendBlock` is detached again from the saved store. -/
def detachedView : UtxoEntries :=
  ((detachBlock spendBlock (getTransactionsUtxo (saveUtxoView heightFiveStore attachedView) ∅
    spendBlock.transactions)).toOption).getD ∅

theorem spendBlock_fresh : spendBlock.resultIds.Nodup ∧
    ∀ r ∈ spendBlock.resultIds, heightFiveStore.lookup r = none := by
  decide +kernel

theorem applyBlock_spendBlock : applyBlock (fun _ => 10) spendBlock
    (getTransactionsUtxo heightFiveStore ∅ spendBlock.transactions) = .ok attachedView :=
  rfl

theorem detachBlock_spendBlock : detachBlock spendBlock (getTransactionsUtxo
    (saveUtxoView heightFiveStore attachedView) ∅ spendBlock.transactions) = .ok detachedView :=
  rfl

theorem saveUtxoView_attachDetach_spendBlock :
    (spendBlock.resultIds.Nodup ∧ ∀ r ∈ spendBlock.resultIds, heightFiveStore.lookup r = none) ∧
    applyBlock (fun _ => 10) spendBlock
      (getTransactionsUtxo heightFiveStore ∅ spendBlock.transactions) = .ok attachedView ∧
    detachBlock spendBlock (getTransactionsUtxo (saveUtxoView heightFiveStore attachedView) ∅
      spendBlock.transactions) = .ok detachedView ∧
    (∀ p e, heightFiveStore.lookup p = some e → e.spent = false →
      ((e.type = .coinbase ∨ p ∉ spendBlock.spentOutputIDs) →
        (saveUtxoView (saveUtxoView heightFiveStore attachedView) detachedView).lookup p =
          some e) ∧
      (e.type ≠ .coinbase → p ∈ spendBlock.spentOutputIDs →
        ∃ t, (saveUtxoView (saveUtxoView heightFiveStore attachedView) detachedView).lookup p =
          some (newUtxoEntry t 0 false))) ∧
    ∀ r ∈ spendBlock.createdIDs,
      (saveUtxoView (saveUtxoView heightFiveStore attachedView) detachedView).lookup r = none :=
  ⟨spendBlock_fresh, applyBlock_spendBlock, detachBlock_spendBlock,
    saveUtxoView_attachDetach (fun _ => 10) heightFiveStore spendBlock (And.left spendBlock_fresh)
      (And.right spendBlock_fresh) attachedView detachedView applyBlock_spendBlock
      detachBlock_spendBlock⟩

/-- The output of height 5 that `spendBlock` spends is spendable again once the block is
detached, but at height 0. -/
theorem restoredHeight_counterexample :
    heightFiveStore.lookup (byteHash 1) = some (newUtxoEntry .normal 5 false) ∧
    (saveUtxoView (saveUtxoView heightFiveStore attachedView) detachedView).lookup (byteHash 1) =
      some (newUtxoEntry .normal 0 false) := by
  decide +kernel

end KuskCore.Database
