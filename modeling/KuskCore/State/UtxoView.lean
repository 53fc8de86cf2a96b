import KuskCore.KeyedUpdates
import KuskCore.Types.Commitment

/-!
# The UTXO view

`protocol/state/utxo_view.go`. A view maps output IDs to `storage.UtxoEntry` records: the type
of the output (normal, coinbase, vote), the height of the block that made it and whether it is
spent. `applyBlock` runs the block's transactions in order; each spends its prevouts, which
must be present, unspent and past their lock, and records its outputs. `detachBlock` runs them
backwards; each marks its prevouts unspent again, recreating a missing one from the type of the
spending transaction's entry for it with height zero, and records its outputs as spent, with
height zero.

Every loop body reads and writes the entry of one output ID only, so the four loops are runs of
keyed updates (`KeyedUpdates`): `applyBlock_eq` and `detachBlock_eq`. What a block does at one
output ID is then the list of that ID's updates: a spend for each time it is a prevout, and a
write where a transaction records it (`applyUpdatesAt_of_not_created`,
`detachUpdatesAt_of_not_created`, `txApplyUpdatesAt_of_created`). From these, what applying and
detaching a block leave at one output: a spend at most once (`applyBlock_lookup_of_not_created`),
one unspend for it (`detachBlock_lookup_of_spent_once`), and for an output the block records
the spent entry written last (`detachBlock_lookup_of_created`).
-/

namespace KuskCore.State

open KeyedUpdates KuskCore.Types

/-- `storage.NormalUTXOType`, `CoinbaseUTXOType` and `VoteUTXOType`. -/
inductive UtxoType where
  | normal
  | coinbase
  | vote
  deriving DecidableEq, Repr

/-- `storage.UtxoEntry`. -/
structure UtxoEntry where
  type : UtxoType
  blockHeight : UInt64
  spent : Bool
  deriving DecidableEq, Repr

/-- `storage.NewUtxoEntry`. -/
def newUtxoEntry (utxoType : UtxoType) (blockHeight : UInt64) (spent : Bool) : UtxoEntry :=
  { type := utxoType, blockHeight, spent }

/-- The entries of a transaction that the view tells apart: an `OriginalOutput` or a
`VoteOutput` with its amount, and any other entry. -/
inductive TxEntry where
  | originalOutput (amount : UInt64)
  | voteOutput (amount : UInt64)
  | other
  deriving DecidableEq, Repr

/-- `bc.Tx`, with what the view reads: its ID, `SpentOutputIDs`, `TxHeader.ResultIds`, and
`Entries` as an association list. -/
structure Tx where
  id : Hash
  spentOutputIDs : List Hash
  resultIds : List Hash
  entries : List (Hash × TxEntry)
  deriving DecidableEq

/-- `tx.Entries[h]`. -/
def Tx.entry (tx : Tx) (h : Hash) : Option TxEntry := tx.entries.lookup h

/-- `bc.Block`: its height and its transactions. -/
structure Block where
  height : UInt64
  transactions : List Tx

/-- The entries of a view, or of the stored UTXO set. -/
abbrev UtxoEntries := AList fun _ : Hash => UtxoEntry

/-- The errors of the view's loops. -/
inductive ViewError where
  /-- "fail to find utxo entry" -/
  | missingEntry
  /-- "utxo has been spent" -/
  | spentEntry
  /-- "coinbase utxo is not ready for use" -/
  | immatureCoinbase
  /-- "Coin is  within the voting lock time" -/
  | voteLocked
  /-- `bc.ErrEntryType` -/
  | unexpectedEntry
  /-- "try to revert an unspent utxo" -/
  | revertUnspent
  deriving DecidableEq, Repr

/-- `consensus.CoinbasePendingBlockNumber`. -/
def coinbasePendingBlockNumber : UInt64 := 10

/-- The type and amount of a result that the view records: an `OriginalOutput` or a
`VoteOutput` of positive amount. Other results (retirements) are skipped. -/
def outputRecord (tx : Tx) (id : Hash) : Option UtxoType :=
  match tx.entry id with
  | some (.originalOutput amount) => if amount = 0 then none else some .normal
  | some (.voteOutput amount) => if amount = 0 then none else some .vote
  | _ => none

/-- `block.Transactions[0].ID == tx.ID`. -/
def isCoinbaseTx (block : Block) (tx : Tx) : Bool :=
  match block.transactions with
  | first :: _ => first.id == tx.id
  | [] => false

section Apply

-- `consensus.VotePendingBlockNums`, which reads the network's parameters
variable (votePendingBlockNums : UInt64 → UInt64)

/-- The body of `applySpendUtxo`'s loop at one prevout. -/
def spendEntry (block : Block) : Option UtxoEntry → Except ViewError (Option UtxoEntry)
  | none => .error .missingEntry
  | some entry =>
    if entry.spent then .error .spentEntry
    else
      match entry.type with
      | .coinbase =>
        if entry.blockHeight + coinbasePendingBlockNumber > block.height then
          .error .immatureCoinbase
        else .ok (some { entry with spent := true })
      | .vote =>
        if entry.blockHeight + votePendingBlockNums block.height > block.height then
          .error .voteLocked
        else .ok (some { entry with spent := true })
      | .normal => .ok (some { entry with spent := true })

/-- `applySpendUtxo`. -/
def applySpendUtxo (block : Block) (tx : Tx) (view : UtxoEntries) :
    Except ViewError UtxoEntries :=
  runUpdates (tx.spentOutputIDs.map fun prevout => (prevout, spendEntry votePendingBlockNums block))
    view

/-- The outputs `applyOutputUtxo` records, with their entries: the first transaction's are
coinbase outputs. -/
def createdUtxos (block : Block) (tx : Tx) : List (Hash × UtxoEntry) :=
  tx.resultIds.filterMap fun id => (outputRecord tx id).map fun utxoType =>
    (id, newUtxoEntry (if isCoinbaseTx block tx then .coinbase else utxoType) block.height false)

/-- `applyOutputUtxo`. -/
def applyOutputUtxo (block : Block) (tx : Tx) (view : UtxoEntries) :
    Except ViewError UtxoEntries :=
  runUpdates ((createdUtxos block tx).map fun c => (c.1, fun _ => .ok (some c.2))) view

/-- `ApplyTransaction`. -/
def applyTransaction (block : Block) (tx : Tx) (view : UtxoEntries) :
    Except ViewError UtxoEntries :=
  (applySpendUtxo votePendingBlockNums block tx view).bind (applyOutputUtxo block tx)

/-- `ApplyBlock`. -/
def applyBlock (block : Block) (view : UtxoEntries) : Except ViewError UtxoEntries :=
  block.transactions.foldlM (fun view tx => applyTransaction votePendingBlockNums block tx view)
    view

/-- The updates of one transaction of a block. -/
def txApplyUpdates (block : Block) (tx : Tx) :
    List (Hash × (Option UtxoEntry → Except ViewError (Option UtxoEntry))) :=
  tx.spentOutputIDs.map (fun prevout => (prevout, spendEntry votePendingBlockNums block)) ++
    (createdUtxos block tx).map fun c => (c.1, fun _ => .ok (some c.2))

theorem applyBlock_eq (block : Block) (view : UtxoEntries) :
    applyBlock votePendingBlockNums block view =
      runUpdates (block.transactions.flatMap (txApplyUpdates votePendingBlockNums block)) view := by
  rw [← foldlM_runUpdates]
  unfold applyBlock
  congr 1
  funext view tx
  rw [txApplyUpdates, runUpdates_append]
  rfl

end Apply

/-! ## Detaching -/

/-- The type `detachSpendUtxo` gives a prevout, from the spending transaction's entry for it. -/
def prevoutType (e : Option TxEntry) : Except ViewError UtxoType :=
  match e with
  | some (.originalOutput _) => .ok .normal
  | some (.voteOutput _) => .ok .vote
  | some .other => .error .unexpectedEntry
  | none => .error .missingEntry

/-- The body of `detachSpendUtxo`'s loop at one prevout. -/
def unspendEntry (utxoType : Except ViewError UtxoType) :
    Option UtxoEntry → Except ViewError (Option UtxoEntry)
  | v =>
    utxoType.bind fun t =>
      match v with
      | some entry => if !entry.spent then .error .revertUnspent
        else .ok (some { entry with spent := false })
      | none => .ok (some (newUtxoEntry t 0 false))

/-- `detachSpendUtxo`. -/
def detachSpendUtxo (tx : Tx) (view : UtxoEntries) : Except ViewError UtxoEntries :=
  runUpdates (tx.spentOutputIDs.map fun prevout =>
    (prevout, unspendEntry (prevoutType (tx.entry prevout)))) view

/-- The outputs `detachOutputUtxo` records as spent. -/
def destroyedUtxos (tx : Tx) : List (Hash × UtxoEntry) :=
  tx.resultIds.filterMap fun id => (outputRecord tx id).map fun utxoType =>
    (id, newUtxoEntry utxoType 0 true)

/-- `detachOutputUtxo`. -/
def detachOutputUtxo (tx : Tx) (view : UtxoEntries) : Except ViewError UtxoEntries :=
  runUpdates ((destroyedUtxos tx).map fun c => (c.1, fun _ => .ok (some c.2))) view

/-- `DetachTransaction`. -/
def detachTransaction (tx : Tx) (view : UtxoEntries) : Except ViewError UtxoEntries :=
  (detachSpendUtxo tx view).bind (detachOutputUtxo tx)

/-- `DetachBlock`: the transactions from the last to the first. -/
def detachBlock (block : Block) (view : UtxoEntries) : Except ViewError UtxoEntries :=
  block.transactions.reverse.foldlM (fun view tx => detachTransaction tx view) view

/-- `CanSpend`. -/
def canSpend (view : UtxoEntries) (h : Hash) : Bool :=
  match view.lookup h with
  | some entry => !entry.spent
  | none => false

/-- The updates of one transaction, detached. -/
def txDetachUpdates (tx : Tx) :
    List (Hash × (Option UtxoEntry → Except ViewError (Option UtxoEntry))) :=
  tx.spentOutputIDs.map (fun prevout => (prevout, unspendEntry (prevoutType (tx.entry prevout)))) ++
    (destroyedUtxos tx).map fun c => (c.1, fun _ => .ok (some c.2))

theorem detachBlock_eq (block : Block) (view : UtxoEntries) :
    detachBlock block view = runUpdates (block.transactions.reverse.flatMap txDetachUpdates) view := by
  rw [← foldlM_runUpdates]
  unfold detachBlock
  congr 1
  funext view tx
  rw [txDetachUpdates, runUpdates_append]
  rfl

/-! ## One entry -/

section Entry

variable {votePendingBlockNums : UInt64 → UInt64} {block : Block}

theorem spendEntry_none : spendEntry votePendingBlockNums block none = .error .missingEntry := rfl

/-- A spend succeeds only on an unspent entry, which it marks spent. -/
theorem spendEntry_eq_ok {v : Option UtxoEntry} {w : Option UtxoEntry}
    (h : spendEntry votePendingBlockNums block v = .ok w) :
    ∃ e, v = some e ∧ e.spent = false ∧ w = some { e with spent := true } := by
  cases v with
  | none => cases h
  | some e =>
    have hs : e.spent = false := by
      cases hs : e.spent with
      | false => rfl
      | true => simp [spendEntry, hs] at h
    refine ⟨e, rfl, hs, ?_⟩
    simp only [spendEntry, hs, Bool.false_eq_true, if_false] at h
    -- every type marks the entry spent, past the lock of coinbase and vote outputs
    cases ht : e.type <;> simp only [ht] at h
    · cases h
      rfl
    · split at h
      · cases h
      · cases h
        rfl
    · split at h
      · cases h
      · cases h
        rfl

/-- An unspend that succeeds leaves an unspent entry: the stored one, or a new one of height
zero. -/
theorem unspendEntry_eq_ok {r : Except ViewError UtxoType} {v w : Option UtxoEntry}
    (h : unspendEntry r v = .ok w) :
    ∃ t, r = .ok t ∧
      ((∃ e, v = some e ∧ e.spent = true ∧ w = some { e with spent := false }) ∨
        (v = none ∧ w = some (newUtxoEntry t 0 false))) := by
  unfold unspendEntry at h
  cases r with
  | error e => cases h
  | ok t =>
    refine ⟨t, rfl, ?_⟩
    match v, h with
    | some e, h =>
      simp only [Except.bind] at h
      split at h
      · cases h
      · rename_i hs
        cases h
        exact .inl ⟨e, rfl, by simpa using hs, rfl⟩
    | none, h =>
      cases h
      exact .inr ⟨rfl, rfl⟩

end Entry

/-! ## What a block does at one output -/

/-- The prevouts of a block, in order. -/
def Block.spentOutputIDs (block : Block) : List Hash := block.transactions.flatMap Tx.spentOutputIDs

/-- The outputs a block records. -/
def Block.createdIDs (block : Block) : List Hash :=
  block.transactions.flatMap fun tx => tx.resultIds.filter fun id => (outputRecord tx id).isSome

/-- The result IDs of a block. -/
def Block.resultIds (block : Block) : List Hash := block.transactions.flatMap Tx.resultIds

theorem Block.mem_resultIds_of_mem_createdIDs {block : Block} {k : Hash}
    (hk : k ∈ block.createdIDs) : k ∈ block.resultIds := by
  obtain ⟨tx, htx, hkf⟩ := List.mem_flatMap.mp hk
  exact List.mem_flatMap.mpr ⟨tx, htx, (List.mem_filter.mp hkf).1⟩

theorem flatMap_replicate {α β : Type} (c : α → Nat) (b : β) :
    ∀ xs : List α, (xs.flatMap fun x => List.replicate (c x) b) = List.replicate (xs.map c).sum b
  | [] => rfl
  | x :: xs => by
    rw [List.flatMap_cons, flatMap_replicate c b xs, List.replicate_append_replicate,
      List.map_cons, List.sum_cons]

theorem createdUtxos_keys (block : Block) (tx : Tx) :
    (createdUtxos block tx).map Prod.fst = tx.resultIds.filter fun id => (outputRecord tx id).isSome := by
  unfold createdUtxos
  induction tx.resultIds with
  | nil => rfl
  | cons id ids ih =>
    cases h : outputRecord tx id <;> simp [h, ih]

theorem destroyedUtxos_keys (tx : Tx) :
    (destroyedUtxos tx).map Prod.fst = tx.resultIds.filter fun id => (outputRecord tx id).isSome := by
  unfold destroyedUtxos
  induction tx.resultIds with
  | nil => rfl
  | cons id ids ih =>
    cases h : outputRecord tx id <;> simp [h, ih]

/-- A result the view records is a normal or a vote output. -/
theorem outputRecord_ne_coinbase (tx : Tx) (id : Hash) : outputRecord tx id ≠ some .coinbase := by
  unfold outputRecord
  split
  · split <;> simp
  · split <;> simp
  · simp

theorem mem_createdUtxos {block : Block} {tx : Tx} {k : Hash} {t : UtxoType}
    (hk : k ∈ tx.resultIds) (ht : outputRecord tx k = some t) :
    (k, newUtxoEntry (if isCoinbaseTx block tx then .coinbase else t) block.height false) ∈
      createdUtxos block tx :=
  List.mem_filterMap.mpr ⟨k, hk, by rw [ht]; rfl⟩

theorem mem_destroyedUtxos {tx : Tx} {k : Hash} {t : UtxoType} (hk : k ∈ tx.resultIds)
    (ht : outputRecord tx k = some t) : (k, newUtxoEntry t 0 true) ∈ destroyedUtxos tx :=
  List.mem_filterMap.mpr ⟨k, hk, by rw [ht]; rfl⟩

/-- A result of one transaction of a block whose result IDs are distinct is a result of no
other transaction. -/
theorem Block.split_of_resultIds_nodup {block : Block} {tx : Tx} {k : Hash}
    (hnd : block.resultIds.Nodup) (htx : tx ∈ block.transactions) (hk : k ∈ tx.resultIds) :
    ∃ pre post, block.transactions = pre ++ tx :: post ∧ (∀ tx' ∈ pre, k ∉ tx'.resultIds) ∧
      (∀ tx' ∈ post, k ∉ tx'.resultIds) ∧ tx.resultIds.Nodup := by
  obtain ⟨pre, post, hsplit⟩ := List.append_of_mem htx
  rw [Block.resultIds, hsplit, List.flatMap_append, List.flatMap_cons] at hnd
  obtain ⟨-, hnd₂, hdisj⟩ := List.nodup_append.mp hnd
  obtain ⟨htnd, -, hdisj₂⟩ := List.nodup_append.mp hnd₂
  refine ⟨pre, post, hsplit, ?_, ?_, htnd⟩
  · intro tx' htx' hk'
    exact hdisj k (List.mem_flatMap.mpr ⟨tx', htx', hk'⟩) k (List.mem_append_left _ hk) rfl
  · intro tx' htx' hk'
    exact hdisj₂ k hk k (List.mem_flatMap.mpr ⟨tx', htx', hk'⟩) rfl

section Keys

variable (votePendingBlockNums : UInt64 → UInt64) {block : Block} {tx : Tx} {k : Hash}

/-! ### One transaction -/

theorem txApplyUpdatesAt_of_not_created
    (hk : k ∉ tx.resultIds.filter fun id => (outputRecord tx id).isSome) :
    updatesAt k (txApplyUpdates votePendingBlockNums block tx) =
      List.replicate (tx.spentOutputIDs.count k) (spendEntry votePendingBlockNums block) := by
  rw [← createdUtxos_keys block] at hk
  rw [txApplyUpdates, updatesAt_append, updatesAt_map_keys, updatesAt_eq_nil
    (by simpa [List.map_map] using hk), List.append_nil]

theorem txDetachUpdatesAt_of_not_created
    (hk : k ∉ tx.resultIds.filter fun id => (outputRecord tx id).isSome) :
    updatesAt k (txDetachUpdates tx) =
      List.replicate (tx.spentOutputIDs.count k) (unspendEntry (prevoutType (tx.entry k))) := by
  rw [← destroyedUtxos_keys] at hk
  rw [txDetachUpdates, updatesAt_append, updatesAt_map_keys (g := fun p =>
    unspendEntry (prevoutType (tx.entry p))), updatesAt_eq_nil (by simpa [List.map_map] using hk),
    List.append_nil]

/-- At an output it records, a transaction spends first and then writes the new entry. -/
theorem txApplyUpdatesAt_of_created {t : UtxoType} (hnd : tx.resultIds.Nodup)
    (hk : k ∈ tx.resultIds) (ht : outputRecord tx k = some t) :
    updatesAt k (txApplyUpdates votePendingBlockNums block tx) =
      List.replicate (tx.spentOutputIDs.count k) (spendEntry votePendingBlockNums block) ++
        [fun _ => .ok (some
          (newUtxoEntry (if isCoinbaseTx block tx then .coinbase else t) block.height false))] := by
  have hkeys : ((createdUtxos block tx).map Prod.fst).Nodup := by
    rw [createdUtxos_keys]
    exact hnd.filter _
  rw [txApplyUpdates, updatesAt_append, updatesAt_map_keys,
    updatesAt_map_of_nodup (fun c _ => .ok (some c.2)) hkeys (mem_createdUtxos hk ht)]

/-- Detached, a transaction unspends first and then writes the output as spent. -/
theorem txDetachUpdatesAt_of_created {t : UtxoType} (hnd : tx.resultIds.Nodup)
    (hk : k ∈ tx.resultIds) (ht : outputRecord tx k = some t) :
    updatesAt k (txDetachUpdates tx) =
      List.replicate (tx.spentOutputIDs.count k) (unspendEntry (prevoutType (tx.entry k))) ++
        [fun _ => .ok (some (newUtxoEntry t 0 true))] := by
  have hkeys : ((destroyedUtxos tx).map Prod.fst).Nodup := by
    rw [destroyedUtxos_keys]
    exact hnd.filter _
  rw [txDetachUpdates, updatesAt_append, updatesAt_map_keys (g := fun p =>
    unspendEntry (prevoutType (tx.entry p))),
    updatesAt_map_of_nodup (fun c _ => .ok (some c.2)) hkeys (mem_destroyedUtxos hk ht)]

/-! ### Runs of spends -/

theorem spendEntry_spent (e : UtxoEntry) :
    spendEntry votePendingBlockNums block (some { e with spent := true }) = .error .spentEntry :=
  rfl

/-- A second spend finds the entry spent, so a run of spends that succeeds spends at most
once. -/
theorem runAt_replicate_spendEntry {v w : Option UtxoEntry} :
    ∀ {c : Nat}, runAt (List.replicate c (spendEntry votePendingBlockNums block)) v = .ok w →
      (c = 0 ∧ w = v) ∨ (c = 1 ∧ spendEntry votePendingBlockNums block v = .ok w)
  | 0, h => .inl ⟨rfl, (Except.ok.inj h).symm⟩
  | 1, h => by
    rw [List.replicate_one, runAt_singleton] at h
    exact .inr ⟨rfl, h⟩
  | c + 2, h => by
    rw [List.replicate_succ, runAt_cons] at h
    cases hs : spendEntry votePendingBlockNums block v with
    | error e =>
      rw [hs] at h
      cases h
    | ok u =>
      obtain ⟨e, -, -, rfl⟩ := spendEntry_eq_ok hs
      rw [hs] at h
      have h' : runAt (List.replicate (c + 1) (spendEntry votePendingBlockNums block))
          (some { e with spent := true }) = .ok w := h
      rw [List.replicate_succ, runAt_cons, spendEntry_spent] at h'
      cases h'

/-- A missing entry cannot be spent. -/
theorem runAt_replicate_spendEntry_none {c : Nat} {fs : List (Option UtxoEntry →
    Except ViewError (Option UtxoEntry))} {w : Option UtxoEntry}
    (h : runAt (List.replicate c (spendEntry votePendingBlockNums block) ++ fs) none = .ok w) :
    c = 0 := by
  cases c with
  | zero => rfl
  | succ c =>
    rw [List.replicate_succ, List.cons_append, runAt_cons, spendEntry_none] at h
    cases h

/-! ### The block -/

/-- At an output the block does not record, applying it is one spend per time it is a
prevout. -/
theorem applyUpdatesAt_of_not_created (hk : k ∉ block.createdIDs) :
    updatesAt k (block.transactions.flatMap (txApplyUpdates votePendingBlockNums block)) =
      List.replicate (block.spentOutputIDs.count k) (spendEntry votePendingBlockNums block) := by
  rw [updatesAt_flatMap, Block.spentOutputIDs, List.count_flatMap]
  have hper : ∀ tx ∈ block.transactions,
      updatesAt k (txApplyUpdates votePendingBlockNums block tx) =
        List.replicate (tx.spentOutputIDs.count k) (spendEntry votePendingBlockNums block) :=
    fun tx htx => txApplyUpdatesAt_of_not_created votePendingBlockNums
      (fun hkc => hk (List.mem_flatMap.mpr ⟨tx, htx, hkc⟩))
  rw [List.flatMap_congr hper, flatMap_replicate]
  rfl

/-- At an output the block does not record, detaching it is one unspend per time it is a
prevout, each with the type its spending transaction gives. -/
theorem detachUpdatesAt_of_not_created (hk : k ∉ block.createdIDs) :
    updatesAt k (block.transactions.reverse.flatMap txDetachUpdates) =
      block.transactions.reverse.flatMap fun tx =>
        List.replicate (tx.spentOutputIDs.count k) (unspendEntry (prevoutType (tx.entry k))) := by
  rw [updatesAt_flatMap]
  apply List.flatMap_congr
  intro tx htx
  exact txDetachUpdatesAt_of_not_created
    (fun hkc => hk (List.mem_flatMap.mpr ⟨tx, List.mem_reverse.mp htx, hkc⟩))

/-- At an output the block does not record and spends once, detaching it is one unspend. -/
theorem detachUpdatesAt_of_count_eq_one (hk : k ∉ block.createdIDs)
    (hc : block.spentOutputIDs.count k = 1) :
    ∃ r, updatesAt k (block.transactions.reverse.flatMap txDetachUpdates) = [unspendEntry r] := by
  rw [detachUpdatesAt_of_not_created hk]
  -- one unspend per spend, and the block spends `k` once
  have hlen : (block.transactions.reverse.flatMap fun tx =>
      List.replicate (tx.spentOutputIDs.count k) (unspendEntry (prevoutType (tx.entry k)))).length
        = 1 := by
    rw [List.length_flatMap, ← hc, Block.spentOutputIDs, List.count_flatMap]
    simp [List.map_reverse, List.sum_reverse, Function.comp_def]
  obtain ⟨f, hf⟩ := List.length_eq_one_iff.mp hlen
  have hmem : f ∈ block.transactions.reverse.flatMap fun tx =>
      List.replicate (tx.spentOutputIDs.count k) (unspendEntry (prevoutType (tx.entry k))) := by
    rw [hf]
    exact List.mem_singleton_self f
  obtain ⟨tx, -, hftx⟩ := List.mem_flatMap.mp hmem
  exact ⟨prevoutType (tx.entry k), by rw [hf, (List.mem_replicate.mp hftx).2]⟩

/-! ### One output across a block -/

variable {view view' : UtxoEntries}

/-- Applying a block either leaves an output it does not record alone, or spends it once. -/
theorem applyBlock_lookup_of_not_created
    (h : applyBlock votePendingBlockNums block view = .ok view') (hk : k ∉ block.createdIDs) :
    (k ∉ block.spentOutputIDs ∧ view'.lookup k = view.lookup k) ∨
      (block.spentOutputIDs.count k = 1 ∧
        spendEntry votePendingBlockNums block (view.lookup k) = .ok (view'.lookup k)) := by
  rw [applyBlock_eq] at h
  have hrun := runUpdates_lookup _ _ _ h k
  rw [applyUpdatesAt_of_not_created votePendingBlockNums hk] at hrun
  rcases runAt_replicate_spendEntry votePendingBlockNums hrun with ⟨hc, hw⟩ | hspend
  · exact .inl ⟨List.count_eq_zero.mp hc, hw⟩
  · exact .inr hspend

/-- Detaching a block leaves an output it neither records nor spends alone. -/
theorem detachBlock_lookup_of_not_spent (h : detachBlock block view = .ok view')
    (hk : k ∉ block.createdIDs) (hs : k ∉ block.spentOutputIDs) :
    view'.lookup k = view.lookup k := by
  rw [detachBlock_eq] at h
  apply runUpdates_lookup_of_not_mem h
  rw [detachUpdatesAt_of_not_created hk, List.flatMap_eq_nil_iff]
  intro tx htx
  have hc : tx.spentOutputIDs.count k = 0 := List.count_eq_zero.mpr fun hp =>
    hs (List.mem_flatMap.mpr ⟨tx, List.mem_reverse.mp htx, hp⟩)
  rw [hc, List.replicate_zero]

/-- Detaching a block that spends an output once unspends it once. -/
theorem detachBlock_lookup_of_spent_once (h : detachBlock block view = .ok view')
    (hk : k ∉ block.createdIDs) (hc : block.spentOutputIDs.count k = 1) :
    ∃ r, unspendEntry r (view.lookup k) = .ok (view'.lookup k) := by
  obtain ⟨r, hr⟩ := detachUpdatesAt_of_count_eq_one hk hc
  rw [detachBlock_eq] at h
  have hrun := runUpdates_lookup _ _ _ h k
  rw [hr, runAt_singleton] at hrun
  exact ⟨r, hrun⟩

/-- An output a block records is spent, if at all, only by later transactions: applying the
block from a view without it succeeds only then. Detaching the block, in reverse, therefore
ends at that output with the write of the transaction that records it, whatever the view
detached from holds. -/
theorem detachBlock_lookup_of_created {w w' : UtxoEntries} (hnd : block.resultIds.Nodup)
    (hk : k ∈ block.createdIDs) (hv : view.lookup k = none)
    (ha : applyBlock votePendingBlockNums block view = .ok view')
    (hd : detachBlock block w = .ok w') :
    ∃ t, t ≠ .coinbase ∧ w'.lookup k = some (newUtxoEntry t 0 true) := by
  obtain ⟨tx, htx, hkf⟩ := List.mem_flatMap.mp hk
  obtain ⟨hkr, hks⟩ := List.mem_filter.mp hkf
  obtain ⟨t, ht⟩ := Option.isSome_iff_exists.mp hks
  obtain ⟨pre, post, hsplit, hpre, -, htnd⟩ := Block.split_of_resultIds_nodup hnd htx hkr
  have hpre' : ∀ tx' ∈ pre, k ∉ tx'.resultIds.filter fun id => (outputRecord tx' id).isSome :=
    fun tx' htx' hkf' => hpre tx' htx' (List.mem_filter.mp hkf').1
  -- applying: the transactions up to `tx` do not spend `k`
  rw [applyBlock_eq] at ha
  have happ := runUpdates_lookup _ _ _ ha k
  rw [hv, updatesAt_flatMap, hsplit, List.flatMap_append, List.flatMap_cons,
    List.flatMap_congr fun tx' htx' => txApplyUpdatesAt_of_not_created votePendingBlockNums
      (hpre' tx' htx'), flatMap_replicate,
    txApplyUpdatesAt_of_created votePendingBlockNums htnd hkr ht] at happ
  have hnpre := runAt_replicate_spendEntry_none votePendingBlockNums happ
  rw [hnpre, List.replicate_zero, List.nil_append, List.append_assoc] at happ
  have hntx := runAt_replicate_spendEntry_none votePendingBlockNums happ
  have hpre0 : ∀ tx' ∈ pre, tx'.spentOutputIDs.count k = 0 := by
    have hc : (pre.flatMap Tx.spentOutputIDs).count k = 0 := by
      rw [List.count_flatMap]
      exact hnpre
    intro tx' htx'
    exact List.count_eq_zero.mpr fun hp =>
      List.count_eq_zero.mp hc (List.mem_flatMap.mpr ⟨tx', htx', hp⟩)
  -- detaching: `tx`'s write comes after every update of the later transactions
  have hnil : (pre.reverse.flatMap fun tx' => updatesAt k (txDetachUpdates tx')) = [] := by
    rw [List.flatMap_eq_nil_iff]
    intro tx' htx'
    have htx'' := List.mem_reverse.mp htx'
    rw [txDetachUpdatesAt_of_not_created (hpre' tx' htx''), hpre0 tx' htx'', List.replicate_zero]
  rw [detachBlock_eq] at hd
  have hdet := runUpdates_lookup _ _ _ hd k
  rw [updatesAt_flatMap, hsplit, List.reverse_append, List.reverse_cons, List.flatMap_append,
    List.flatMap_append, hnil, List.flatMap_singleton, txDetachUpdatesAt_of_created htnd hkr ht,
    hntx, List.replicate_zero, List.nil_append, List.append_nil] at hdet
  exact ⟨t, fun htc => outputRecord_ne_coinbase tx k (htc ▸ ht), runAt_append_write hdet⟩

end Keys

end KuskCore.State
