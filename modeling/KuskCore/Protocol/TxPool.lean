import KuskCore.Database.UtxoStore
import KuskCore.Standard.Programs
import KuskCore.InvertedIndex

/-!
# The transaction pool

`protocol/txpool.go`. The pool keeps four maps: `pool` (the transactions accepted, by ID),
`utxo` (each output of an accepted transaction that is an `OriginalOutput`, to that
transaction), `orphans` (the transactions waiting for a parent, by ID) and `orphansByPrev`
(for a prevout, the orphans waiting on it). It posts a `MsgNewTx` for every transaction it
accepts and a `MsgRemoveTx` for every one it removes; the model keeps the posted messages in
order.

`ProcessTransaction` drops dust. Otherwise `checkOrphanUtxos` lists the prevouts neither the
store nor `utxo` can spend: if there are any the transaction becomes an orphan, registered in
`orphansByPrev` under the list's entries; else it is accepted, and `processOrphans` runs a queue
of the orphans waiting on its outputs, accepting each that no longer waits. The queue loop
terminates because each orphan it takes up was taken out of `orphansByPrev`
(`processQueue_measure`).

The module is built with Go 1.16 loop semantics: `checkOrphanUtxos` appends `&hash`, the
address of the one loop variable, so every entry of its result is the transaction's last
prevout (`mem_checkOrphanUtxos`). An orphan is therefore registered under a prevout it spends,
but not always under one it waits on.
-/

namespace KuskCore.Protocol

open KuskCore.Types KuskCore.State KuskCore.Database KuskCore.Vm

/-- `types.Tx`, with what the pool reads: the mapped `bc.Tx`, `SerializedSize`, the asset ID of
each input, and the amount and control program of each output. -/
structure PoolTx where
  tx : Tx
  serializedSize : UInt64
  inputAssetIDs : List Hash
  outputs : List (UInt64 × Bytes)
  deriving DecidableEq

/-- `tx.ID`, the ID of the embedded `bc.Tx`. -/
def PoolTx.id (tx : PoolTx) : Hash := tx.tx.id

/-- `TxDesc`. Times are in nanoseconds, and Go's zero time is 0. -/
structure TxDesc where
  tx : PoolTx
  added : Nat
  height : UInt64
  weight : UInt64
  fee : UInt64

/-- `orphanTx`. -/
structure OrphanTx where
  desc : TxDesc
  expiration : Nat

/-- `MsgNewTx` and `MsgRemoveTx`. -/
inductive MsgType where
  | newTx
  | removeTx
  deriving DecidableEq, Repr

/-- `TxPoolMsg`. -/
structure TxPoolMsg where
  desc : TxDesc
  msgType : MsgType

/-- The orphans waiting on one prevout, by ID. -/
abbrev Orphans := AList fun _ : Hash => OrphanTx

/-- `orphansByPrev`. -/
abbrev OrphansByPrev := AList fun _ : Hash => Orphans

/-- `TxPool`, with the messages it has posted to its event dispatcher, oldest first. -/
structure TxPool where
  pool : AList fun _ : Hash => TxDesc
  utxo : AList fun _ : Hash => PoolTx
  orphans : Orphans
  orphansByPrev : OrphansByPrev
  msgs : List TxPoolMsg

/-- `NewTxPool`. -/
def newTxPool : TxPool := ⟨∅, ∅, ∅, ∅, []⟩

/-- `ErrPoolIsFull`, the one error of the calls modelled. -/
inductive PoolError where
  | poolIsFull
  deriving DecidableEq, Repr

def maxNewTxNum : Nat := 10000

def maxOrphanNum : Nat := 2000

/-- `orphanTTL`: ten minutes. -/
def orphanTTL : Nat := 10 * 60 * 1000000000

/-- `consensus.KUSKAssetID`. -/
def kuskAssetID : Hash := Hash.ofByte 0xff

/-! ## Dust -/

/-- `isTransactionNoKuskInput`. -/
def isTransactionNoKuskInput (tx : PoolTx) : Bool :=
  tx.inputAssetIDs.all fun assetID => assetID != kuskAssetID

/-- `isTransactionZeroOutput`. -/
def isTransactionZeroOutput (tx : PoolTx) : Bool := tx.outputs.any fun output => output.1 == 0

/-- `isInvalidBCRPTx`. -/
def isInvalidBCRPTx (tx : PoolTx) : Bool := tx.outputs.any fun output => isBCRPScript output.2

/-- `IsDust`. -/
def isDust (tx : PoolTx) : Bool :=
  isTransactionNoKuskInput tx || isTransactionZeroOutput tx || isInvalidBCRPTx tx

/-! ## The calls -/

/-- `checkOrphanUtxos`, on the store `db`. Go appends `&hash` for each prevout that cannot be
spent; the loop variable is shared between iterations and ends at the last prevout. -/
def checkOrphanUtxos (db : UtxoEntries) (tx : PoolTx) (tp : TxPool) : List Hash :=
  let view := getTransactionsUtxo db ∅ [tx.tx]
  let missing := tx.tx.spentOutputIDs.filter fun hash =>
    !canSpend view hash && (tp.utxo.lookup hash).isNone
  match tx.tx.spentOutputIDs.getLast? with
  | some hash => missing.map fun _ => hash
  | none => []

/-- The body of `addOrphan`'s loop: register the orphan under one prevout. -/
def linkOrphan (orphan : OrphanTx) (orphansByPrev : OrphansByPrev) (hash : Hash) : OrphansByPrev :=
  orphansByPrev.insert hash (((orphansByPrev.lookup hash).getD ∅).insert orphan.desc.tx.id orphan)

/-- `addOrphan`. -/
def addOrphan (now : Nat) (txD : TxDesc) (requireParents : List Hash) (tp : TxPool) :
    Except PoolError TxPool :=
  if tp.orphans.entries.length ≥ maxOrphanNum then .error .poolIsFull
  else
    let orphan : OrphanTx := { desc := txD, expiration := now + orphanTTL }
    .ok { tp with
      orphans := tp.orphans.insert txD.tx.id orphan
      orphansByPrev := requireParents.foldl (linkOrphan orphan) tp.orphansByPrev }

/-- The body of `addTransaction`'s loop: an `OriginalOutput` of the transaction goes to `utxo`. -/
def recordOutput (tx : PoolTx) (utxo : AList fun _ : Hash => PoolTx) (id : Hash) :
    AList fun _ : Hash => PoolTx :=
  match tx.tx.entry id with
  | some (.originalOutput _) => utxo.insert id tx
  | _ => utxo

/-- `addTransaction`. -/
def addTransaction (now : Nat) (txD : TxDesc) (tp : TxPool) : Except PoolError TxPool :=
  if tp.pool.entries.length ≥ maxNewTxNum then .error .poolIsFull
  else
    let added := { txD with added := now }
    .ok { tp with
      pool := tp.pool.insert txD.tx.id added
      utxo := txD.tx.tx.resultIds.foldl (recordOutput txD.tx) tp.utxo
      msgs := tp.msgs ++ [{ desc := added, msgType := .newTx }] }

/-- What `removeOrphan` leaves of the orphans waiting on one prevout: an emptied map is
deleted. -/
def unlinkedOrphans (hash : Hash) (orphans : Orphans) : Option Orphans :=
  if (orphans.erase hash).entries.length = 0 then none else some (orphans.erase hash)

/-- The body of `removeOrphan`'s loop at one prevout of the orphan. -/
def unlinkOrphan (hash : Hash) (orphansByPrev : OrphansByPrev) (spend : Hash) : OrphansByPrev :=
  match orphansByPrev.lookup spend with
  | none => orphansByPrev
  | some orphans =>
    match unlinkedOrphans hash orphans with
    | none => orphansByPrev.erase spend
    | some orphans => orphansByPrev.insert spend orphans

/-- `removeOrphan`. -/
def removeOrphan (hash : Hash) (tp : TxPool) : TxPool :=
  match tp.orphans.lookup hash with
  | none => tp
  | some orphan =>
    { tp with
      orphansByPrev := orphan.desc.tx.tx.spentOutputIDs.foldl (unlinkOrphan hash) tp.orphansByPrev
      orphans := tp.orphans.erase hash }

/-- `RemoveTransaction`. -/
def removeTransaction (txHash : Hash) (tp : TxPool) : TxPool :=
  match tp.pool.lookup txHash with
  | none => tp
  | some txD =>
    { tp with
      utxo := txD.tx.tx.resultIds.foldl (fun utxo output => utxo.erase output) tp.utxo
      pool := tp.pool.erase txHash
      msgs := tp.msgs ++ [{ desc := txD, msgType := .removeTx }] }

/-- `ExpireOrphan`. Go visits the orphans in an unspecified order; the model takes the order of
the entries. Removing one orphan deletes no other, so each is visited. -/
def expireOrphan (now : Nat) (tp : TxPool) : TxPool :=
  tp.orphans.entries.foldl (fun tp' orphan =>
    if orphan.2.expiration < now then removeOrphan orphan.1 tp' else tp') tp

/-- The body of `addRely`'s loop at one output: the orphans waiting on it join the queue, and
the output leaves `orphansByPrev`. -/
def relyStep (acc : List OrphanTx × OrphansByPrev) (outHash : Hash) :
    List OrphanTx × OrphansByPrev :=
  match acc.2.lookup outHash with
  | none => acc
  | some orphans => (acc.1 ++ orphans.entries.map (·.2), acc.2.erase outHash)

/-- `addRely`, the closure inside `processOrphans`. -/
def addRely (tx : PoolTx) (queue : List OrphanTx) (tp : TxPool) : List OrphanTx × TxPool :=
  let acc := tx.tx.resultIds.foldl relyStep (queue, tp.orphansByPrev)
  (acc.1, { tp with orphansByPrev := acc.2 })

/-- `addTransaction` with its error dropped, as `processOrphans` calls it. -/
def addTransactionOrKeep (now : Nat) (txD : TxDesc) (tp : TxPool) : TxPool :=
  match addTransaction now txD tp with
  | .ok tp' => tp'
  | .error _ => tp

/-! ## The queue of `processOrphans` terminates -/

/-- The number of orphan entries in `orphansByPrev`, over all prevouts. -/
def byPrevCount (m : OrphansByPrev) : Nat := (m.entries.map fun e => e.2.entries.length).sum

theorem sum_map_kerase {α V : Type} [DecidableEq α] (w : V → Nat) (k : α) :
    ∀ l : List (Sigma fun _ : α => V),
      ((l.kerase k).map fun e => w e.2).sum + ((l.dlookup k).map w).getD 0 =
        (l.map fun e => w e.2).sum
  | [] => rfl
  | ⟨a, v⟩ :: l => by
    by_cases hk : k = a
    · subst hk
      have herase : (⟨k, v⟩ :: l).kerase k = l := List.kerase_cons_eq rfl
      rw [herase, List.dlookup_cons_eq, List.map_cons, List.sum_cons]
      simp only [Option.map_some, Option.getD_some]
      omega
    · have ih := sum_map_kerase w k l
      rw [List.kerase_cons_ne hk, List.dlookup_cons_ne _ _ hk, List.map_cons, List.sum_cons,
        List.map_cons, List.sum_cons]
      omega

theorem byPrevCount_erase (m : OrphansByPrev) (k : Hash) :
    byPrevCount (m.erase k) + ((m.lookup k).map fun o => o.entries.length).getD 0 =
      byPrevCount m :=
  sum_map_kerase (fun o : Orphans => o.entries.length) k m.entries

theorem byPrevCount_insert (m : OrphansByPrev) (k : Hash) (v : Orphans) :
    byPrevCount (m.insert k v) = v.entries.length + byPrevCount (m.erase k) := by
  unfold byPrevCount
  rw [AList.entries_insert, List.map_cons, List.sum_cons]
  rfl

/-- `addRely` moves entries from `orphansByPrev` to the queue, one for one. -/
theorem relyStep_measure (acc : List OrphanTx × OrphansByPrev) (outHash : Hash) :
    (relyStep acc outHash).1.length + byPrevCount (relyStep acc outHash).2 =
      acc.1.length + byPrevCount acc.2 := by
  cases hl : acc.2.lookup outHash with
  | none => simp only [relyStep, hl]
  | some orphans =>
    have herase := byPrevCount_erase acc.2 outHash
    rw [hl, Option.map_some, Option.getD_some] at herase
    simp only [relyStep, hl, List.length_append, List.length_map]
    omega

theorem foldl_relyStep_measure :
    ∀ (ids : List Hash) (acc : List OrphanTx × OrphansByPrev),
      (ids.foldl relyStep acc).1.length + byPrevCount (ids.foldl relyStep acc).2 =
        acc.1.length + byPrevCount acc.2
  | [], _ => rfl
  | id :: ids, acc => by
    rw [List.foldl_cons, foldl_relyStep_measure ids, relyStep_measure]

theorem addRely_measure (tx : PoolTx) (queue : List OrphanTx) (tp : TxPool) :
    (addRely tx queue tp).1.length + byPrevCount (addRely tx queue tp).2.orphansByPrev =
      queue.length + byPrevCount tp.orphansByPrev :=
  foldl_relyStep_measure _ _

theorem unlinkOrphan_count_le (hash : Hash) (m : OrphansByPrev) (spend : Hash) :
    byPrevCount (unlinkOrphan hash m spend) ≤ byPrevCount m := by
  have herase := byPrevCount_erase m spend
  cases hl : m.lookup spend with
  | none => simp only [unlinkOrphan, hl, Nat.le_refl]
  | some orphans =>
    rw [hl, Option.map_some, Option.getD_some] at herase
    cases hu : unlinkedOrphans hash orphans with
    | none =>
      simp only [unlinkOrphan, hl, hu]
      omega
    | some orphans' =>
      -- the prevout keeps the orphans less the one removed
      have hle : orphans'.entries.length ≤ orphans.entries.length := by
        unfold unlinkedOrphans at hu
        split at hu
        · cases hu
        · cases hu
          exact (List.kerase_sublist _ _).length_le
      simp only [unlinkOrphan, hl, hu, byPrevCount_insert]
      omega

theorem foldl_unlinkOrphan_count_le (hash : Hash) :
    ∀ (spends : List Hash) (m : OrphansByPrev),
      byPrevCount (spends.foldl (unlinkOrphan hash) m) ≤ byPrevCount m
  | [], _ => Nat.le_refl _
  | spend :: spends, m => by
    rw [List.foldl_cons]
    exact Nat.le_trans (foldl_unlinkOrphan_count_le hash spends _) (unlinkOrphan_count_le hash m spend)

theorem removeOrphan_count_le (hash : Hash) (tp : TxPool) :
    byPrevCount (removeOrphan hash tp).orphansByPrev ≤ byPrevCount tp.orphansByPrev := by
  unfold Protocol.removeOrphan
  split
  · exact Nat.le_refl _
  · exact foldl_unlinkOrphan_count_le hash _ _

theorem addTransactionOrKeep_orphansByPrev (now : Nat) (txD : TxDesc) (tp : TxPool) :
    (addTransactionOrKeep now txD tp).orphansByPrev = tp.orphansByPrev := by
  unfold addTransactionOrKeep addTransaction
  split
  · rename_i tp' h
    split at h
    · cases h
    · cases h
      rfl
  · rfl

/-- One turn of the queue loop takes an entry off the queue, and what `addRely` adds to the
queue it takes out of `orphansByPrev`. -/
theorem processQueue_measure (now : Nat) (txD : TxDesc) (hash : Hash) (tx : PoolTx)
    (queue : List OrphanTx) (tp : TxPool) :
    (addRely tx queue tp).1.length +
        byPrevCount (addTransactionOrKeep now txD (removeOrphan hash (addRely tx queue tp).2)).orphansByPrev
      ≤ queue.length + byPrevCount tp.orphansByPrev := by
  rw [addTransactionOrKeep_orphansByPrev]
  have hrely := addRely_measure tx queue tp
  have hremove := removeOrphan_count_le hash (addRely tx queue tp).2
  omega

/-- The loop of `processOrphans`. -/
def processQueue (db : UtxoEntries) (now : Nat) (queue : List OrphanTx) (tp : TxPool) : TxPool :=
  match queue with
  | [] => tp
  | processOrphan :: queue =>
    if checkOrphanUtxos db processOrphan.desc.tx tp = [] then
      let relied := addRely processOrphan.desc.tx queue tp
      processQueue db now relied.1
        (addTransactionOrKeep now processOrphan.desc (removeOrphan processOrphan.desc.tx.id relied.2))
    else processQueue db now queue tp
termination_by queue.length + byPrevCount tp.orphansByPrev
decreasing_by
  · have hstep := processQueue_measure now processOrphan.desc processOrphan.desc.tx.id
      processOrphan.desc.tx queue tp
    simp only [List.length_cons]
    omega
  · simp only [List.length_cons]
    omega

/-- `processOrphans`. -/
def processOrphans (db : UtxoEntries) (now : Nat) (txD : TxDesc) (tp : TxPool) : TxPool :=
  let relied := addRely txD.tx [] tp
  processQueue db now relied.1 relied.2

/-- `processTransaction`: whether the transaction is an orphan, and the error. -/
def processTransaction (db : UtxoEntries) (now : Nat) (tx : PoolTx) (height fee : UInt64)
    (tp : TxPool) : (Bool × Option PoolError) × TxPool :=
  let txD : TxDesc := { tx, added := 0, height, weight := tx.serializedSize, fee }
  let requireParents := checkOrphanUtxos db tx tp
  if requireParents.length > 0 then
    match addOrphan now txD requireParents tp with
    | .ok tp' => ((true, none), tp')
    | .error e => ((true, some e), tp)
  else
    match addTransaction now txD tp with
    | .ok tp' => ((false, none), processOrphans db now txD tp')
    | .error e => ((false, some e), tp)

/-- `ProcessTransaction`, which drops dust. -/
def ProcessTransaction (db : UtxoEntries) (now : Nat) (tx : PoolTx) (height fee : UInt64)
    (tp : TxPool) : (Bool × Option PoolError) × TxPool :=
  if isDust tx then ((false, none), tp) else processTransaction db now tx height fee tp

/-- The calls of the pool, each with the store and the time it sees. -/
inductive PoolCall where
  | processTransaction (db : UtxoEntries) (now : Nat) (tx : PoolTx) (height fee : UInt64)
  | removeTransaction (txHash : Hash)
  | expireOrphan (now : Nat)

def PoolCall.apply : PoolCall → TxPool → TxPool
  | .processTransaction db now tx height fee, tp => (ProcessTransaction db now tx height fee tp).2
  | .removeTransaction txHash, tp => Protocol.removeTransaction txHash tp
  | .expireOrphan now, tp => Protocol.expireOrphan now tp

/-- The transactions a call hands to the pool. -/
def PoolCall.txs : PoolCall → List PoolTx
  | .processTransaction _ _ tx _ _ => [tx]
  | .removeTransaction _ => []
  | .expireOrphan _ => []

/-- A run of calls, in order. -/
def runPool (calls : List PoolCall) (tp : TxPool) : TxPool :=
  calls.foldl (fun tp call => call.apply tp) tp

/-! ## What one call changes -/

theorem mem_checkOrphanUtxos {db : UtxoEntries} {tx : PoolTx} {tp : TxPool} {h : Hash}
    (hh : h ∈ checkOrphanUtxos db tx tp) : h ∈ tx.tx.spentOutputIDs := by
  unfold checkOrphanUtxos at hh
  -- every entry is the last prevout
  cases hl : tx.tx.spentOutputIDs.getLast? with
  | none =>
    rw [hl] at hh
    cases hh
  | some last =>
    rw [hl] at hh
    obtain ⟨-, -, rfl⟩ := List.mem_map.mp hh
    exact List.mem_of_getLast? hl

theorem lookup_linkOrphan (orphan : OrphanTx) (m : OrphansByPrev) (hash h : Hash) :
    (linkOrphan orphan m hash).lookup h =
      if h = hash then some (((m.lookup hash).getD ∅).insert orphan.desc.tx.id orphan)
      else m.lookup h := by
  unfold linkOrphan
  by_cases hh : h = hash
  · subst hh
    rw [AList.lookup_insert, if_pos rfl]
  · rw [AList.lookup_insert_ne hh, if_neg hh]

theorem lookup_unlinkOrphan (hash : Hash) (m : OrphansByPrev) (spend h : Hash) :
    (unlinkOrphan hash m spend).lookup h =
      if h = spend then (m.lookup h).bind (unlinkedOrphans hash) else m.lookup h := by
  by_cases hh : h = spend
  · subst hh
    rw [if_pos rfl]
    cases hl : m.lookup h with
    | none => simp only [unlinkOrphan, hl, Option.bind_none]
    | some orphans =>
      cases hu : unlinkedOrphans hash orphans with
      | none => simp only [unlinkOrphan, hl, hu, Option.bind_some, AList.lookup_erase]
      | some orphans' => simp only [unlinkOrphan, hl, hu, Option.bind_some, AList.lookup_insert]
  · rw [if_neg hh]
    unfold unlinkOrphan
    split
    · rfl
    · split
      · exact AList.lookup_erase_ne hh
      · exact AList.lookup_insert_ne hh

/-- Unlinking twice unlinks once: the orphan is gone after the first time. -/
theorem unlinkedOrphans_idem {hash : Hash} {orphans orphans' : Orphans}
    (h : unlinkedOrphans hash orphans = some orphans') :
    unlinkedOrphans hash orphans' = some orphans' := by
  unfold unlinkedOrphans at h ⊢
  split at h
  · cases h
  · cases h
    have hgone : (orphans.erase hash).erase hash = orphans.erase hash :=
      AList.ext (List.kerase_of_notMem_keys fun hm => (AList.mem_erase.mp hm).1 rfl)
    rw [hgone, if_neg ‹_›]

theorem lookup_foldl_unlinkOrphan (hash h : Hash) :
    ∀ (spends : List Hash) (m : OrphansByPrev),
      (spends.foldl (unlinkOrphan hash) m).lookup h =
        if h ∈ spends then (m.lookup h).bind (unlinkedOrphans hash) else m.lookup h
  | [], m => by simp
  | spend :: spends, m => by
    rw [List.foldl_cons, lookup_foldl_unlinkOrphan hash h spends, lookup_unlinkOrphan]
    by_cases hs : h ∈ spends
    · by_cases hh : h = spend
      · -- a prevout listed twice is unlinked once
        subst hh
        rw [if_pos hs, if_pos rfl, if_pos (List.mem_cons_self ..)]
        cases hl : m.lookup h with
        | none => rfl
        | some orphans =>
          cases hu : unlinkedOrphans hash orphans with
          | none => simp only [Option.bind_some, hu, Option.bind_none]
          | some orphans' => simp only [Option.bind_some, hu, unlinkedOrphans_idem hu]
      · rw [if_pos hs, if_neg hh, if_pos (List.mem_cons_of_mem _ hs)]
    · by_cases hh : h = spend
      · subst hh
        rw [if_neg hs, if_pos rfl, if_pos (List.mem_cons_self ..)]
      · rw [if_neg hs, if_neg hh, if_neg (by simp [hh, hs])]

/-! ## The indexes agree

Each map holds only transactions of a set `S` whose members have distinct IDs (`IdsDistinct`),
as the IDs of real transactions, which are hashes of their content, are. Then `orphansByPrev`
lists under a prevout only orphans that spend it, and `utxo` points only to accepted
transactions that made the output. -/

section Indexes

variable (S : PoolTx → Prop)

/-- Distinct transactions of `S` have distinct IDs. -/
def IdsDistinct : Prop := ∀ t₁ t₂, S t₁ → S t₂ → t₁.id = t₂.id → t₁ = t₂

/-- Every transaction `pool` holds is of `S`, under its own ID. -/
def PoolOk (pool : AList fun _ : Hash => TxDesc) : Prop :=
  ∀ id d, pool.lookup id = some d → S d.tx ∧ d.tx.id = id

/-- Every orphan is of `S`, under its own ID. -/
def OrphansOk (orphans : Orphans) : Prop :=
  ∀ id o, orphans.lookup id = some o → S o.desc.tx ∧ o.desc.tx.id = id

/-- `orphansByPrev` lists under a prevout a non-empty map of orphans of `S`, each under its own
ID, spending that prevout and held by `orphans`. -/
def ByPrevOk (orphans : Orphans) (orphansByPrev : OrphansByPrev) : Prop :=
  ∀ h os, orphansByPrev.lookup h = some os → os.entries ≠ [] ∧
    ∀ id o, os.lookup id = some o →
      S o.desc.tx ∧ o.desc.tx.id = id ∧ h ∈ o.desc.tx.tx.spentOutputIDs ∧ id ∈ orphans

/-- `utxo` points an output to a transaction of `S` that made it and that `pool` holds. -/
def UtxoOk (pool : AList fun _ : Hash => TxDesc) (utxo : AList fun _ : Hash => PoolTx) : Prop :=
  ∀ h t, utxo.lookup h = some t → S t ∧ h ∈ t.tx.resultIds ∧ t.id ∈ pool

/-- The queue of `processOrphans` holds orphans of `S`. -/
def QueueOk (queue : List OrphanTx) : Prop := ∀ o ∈ queue, S o.desc.tx

structure Indexed (tp : TxPool) : Prop where
  pool : PoolOk S tp.pool
  orphans : OrphansOk S tp.orphans
  byPrev : ByPrevOk S tp.orphans tp.orphansByPrev
  utxo : UtxoOk S tp.pool tp.utxo

variable {S}

theorem indexed_newTxPool : Indexed S newTxPool where
  pool := fun _ _ h => by simp [newTxPool] at h
  orphans := fun _ _ h => by simp [newTxPool] at h
  byPrev := fun _ _ h => by simp [newTxPool] at h
  utxo := fun _ _ h => by simp [newTxPool] at h

/-! ### `orphansByPrev` -/

theorem ByPrevOk.mono {orphans orphans' : Orphans} {m : OrphansByPrev}
    (hm : ByPrevOk S orphans m) (hsub : ∀ id ∈ orphans, id ∈ orphans') : ByPrevOk S orphans' m := by
  intro h os hl
  obtain ⟨hne, hos⟩ := hm h os hl
  refine ⟨hne, fun id o ho => ?_⟩
  obtain ⟨hS, hid, hspend, hmem⟩ := hos id o ho
  exact ⟨hS, hid, hspend, hsub id hmem⟩

/-- Registering an orphan of `S`, held by `orphans`, under a prevout it spends. -/
theorem ByPrevOk.linkOrphan {orphans : Orphans} {m : OrphansByPrev} {orphan : OrphanTx}
    {hash : Hash} (hm : ByPrevOk S orphans m) (hS : S orphan.desc.tx)
    (hmem : orphan.desc.tx.id ∈ orphans) (hspend : hash ∈ orphan.desc.tx.tx.spentOutputIDs) :
    ByPrevOk S orphans (linkOrphan orphan m hash) := by
  intro h os hl
  rw [lookup_linkOrphan] at hl
  by_cases hh : h = hash
  · -- the prevout's map, with the orphan added
    subst hh
    rw [if_pos rfl] at hl
    cases hl
    refine ⟨fun hnil => ?_, fun id o ho => ?_⟩
    · rw [AList.entries_insert] at hnil
      cases hnil
    · by_cases hid : id = orphan.desc.tx.id
      · subst hid
        rw [AList.lookup_insert] at ho
        cases ho
        exact ⟨hS, rfl, hspend, hmem⟩
      · rw [AList.lookup_insert_ne hid] at ho
        cases hold : m.lookup h with
        | none =>
          rw [hold, Option.getD_none, AList.lookup_empty] at ho
          cases ho
        | some os' =>
          rw [hold, Option.getD_some] at ho
          exact (hm h os' hold).2 id o ho
  · rw [if_neg hh] at hl
    exact hm h os hl

theorem ByPrevOk.foldl_linkOrphan {orphans : Orphans} {orphan : OrphanTx}
    (hS : S orphan.desc.tx) (hmem : orphan.desc.tx.id ∈ orphans) :
    ∀ (hashes : List Hash) {m : OrphansByPrev}, ByPrevOk S orphans m →
      (∀ h ∈ hashes, h ∈ orphan.desc.tx.tx.spentOutputIDs) →
      ByPrevOk S orphans (hashes.foldl (Protocol.linkOrphan orphan) m)
  | [], _, hm, _ => hm
  | hash :: hashes, _, hm, hspend => by
    rw [List.foldl_cons]
    exact ByPrevOk.foldl_linkOrphan hS hmem hashes
      (hm.linkOrphan hS hmem (hspend hash (List.mem_cons_self ..)))
      fun h hh => hspend h (List.mem_cons_of_mem _ hh)

/-- Removing an orphan from `orphans` and unlinking it under each of its prevouts: since IDs are
distinct, no other prevout lists it. -/
theorem ByPrevOk.removeOrphan (hS : IdsDistinct S) {orphans : Orphans} {m : OrphansByPrev}
    {hash : Hash} {orphan : OrphanTx} (hm : ByPrevOk S orphans m) (ho : OrphansOk S orphans)
    (hl : orphans.lookup hash = some orphan) :
    ByPrevOk S (orphans.erase hash)
      (orphan.desc.tx.tx.spentOutputIDs.foldl (unlinkOrphan hash) m) := by
  intro h os hos
  rw [lookup_foldl_unlinkOrphan] at hos
  by_cases hh : h ∈ orphan.desc.tx.tx.spentOutputIDs
  · -- a prevout of the orphan keeps the other orphans
    rw [if_pos hh] at hos
    cases hold : m.lookup h with
    | none =>
      rw [hold] at hos
      cases hos
    | some os' =>
      rw [hold, Option.bind_some] at hos
      unfold unlinkedOrphans at hos
      split at hos
      · cases hos
      · rename_i hlen
        cases hos
        refine ⟨fun hnil => hlen (by rw [hnil]; rfl), fun id o hio => ?_⟩
        have hne : id ≠ hash := fun he => by
          rw [he, AList.lookup_erase] at hio
          cases hio
        rw [AList.lookup_erase_ne hne] at hio
        obtain ⟨hSo, hid, hspend, hmem⟩ := (hm h os' hold).2 id o hio
        exact ⟨hSo, hid, hspend, AList.mem_erase.mpr ⟨hne, hmem⟩⟩
  · -- any other prevout does not list the orphan, which does not spend it
    rw [if_neg hh] at hos
    obtain ⟨hnil, hall⟩ := hm h os hos
    refine ⟨hnil, fun id o hio => ?_⟩
    obtain ⟨hSo, hid, hspend, hmem⟩ := hall id o hio
    have hne : id ≠ hash := fun he => by
      obtain ⟨hSorphan, horphan⟩ := ho hash orphan hl
      have hsame := hS _ _ hSo hSorphan (hid.trans (he.trans horphan.symm))
      exact hh (hsame ▸ hspend)
    exact ⟨hSo, hid, hspend, AList.mem_erase.mpr ⟨hne, hmem⟩⟩

/-- `addRely` erases whole prevouts of `orphansByPrev`, and what it queues comes from there. -/
theorem ByPrevOk.relyStep {orphans : Orphans} {acc : List OrphanTx × OrphansByPrev}
    (hm : ByPrevOk S orphans acc.2) (hq : QueueOk S acc.1) (outHash : Hash) :
    ByPrevOk S orphans (Protocol.relyStep acc outHash).2 ∧
      QueueOk S (Protocol.relyStep acc outHash).1 := by
  cases hl : acc.2.lookup outHash with
  | none =>
    simp only [Protocol.relyStep, hl]
    exact ⟨hm, hq⟩
  | some os =>
    simp only [Protocol.relyStep, hl]
    refine ⟨fun h os' hos' => ?_, fun o ho => ?_⟩
    · have hne : h ≠ outHash := fun he => by
        rw [he, AList.lookup_erase] at hos'
        cases hos'
      rw [AList.lookup_erase_ne hne] at hos'
      exact hm h os' hos'
    · rcases List.mem_append.mp ho with ho | ho
      · exact hq o ho
      · obtain ⟨e, he, rfl⟩ := List.mem_map.mp ho
        exact ((hm outHash os hl).2 e.1 e.2 (AList.mem_lookup_iff.mpr he)).1

theorem ByPrevOk.foldl_relyStep {orphans : Orphans} :
    ∀ (ids : List Hash) (acc : List OrphanTx × OrphansByPrev), ByPrevOk S orphans acc.2 →
      QueueOk S acc.1 →
      ByPrevOk S orphans (ids.foldl Protocol.relyStep acc).2 ∧
        QueueOk S (ids.foldl Protocol.relyStep acc).1
  | [], _, hm, hq => ⟨hm, hq⟩
  | id :: ids, _, hm, hq => by
    obtain ⟨hm', hq'⟩ := hm.relyStep hq id
    rw [List.foldl_cons]
    exact ByPrevOk.foldl_relyStep ids _ hm' hq'

/-! ### `utxo` -/

theorem UtxoOk.mono {pool pool' : AList fun _ : Hash => TxDesc} {utxo : AList fun _ : Hash => PoolTx}
    (hu : UtxoOk S pool utxo) (hsub : ∀ id ∈ pool, id ∈ pool') : UtxoOk S pool' utxo := by
  intro h t ht
  obtain ⟨hS, hres, hmem⟩ := hu h t ht
  exact ⟨hS, hres, hsub _ hmem⟩

/-- Recording the outputs of an accepted transaction of `S`. -/
theorem UtxoOk.foldl_recordOutput {pool : AList fun _ : Hash => TxDesc} {tx : PoolTx}
    (hS : S tx) (hmem : tx.id ∈ pool) :
    ∀ (ids : List Hash) {utxo : AList fun _ : Hash => PoolTx}, UtxoOk S pool utxo →
      (∀ id ∈ ids, id ∈ tx.tx.resultIds) → UtxoOk S pool (ids.foldl (recordOutput tx) utxo)
  | [], _, hu, _ => hu
  | id :: ids, utxo, hu, hres => by
    rw [List.foldl_cons]
    apply UtxoOk.foldl_recordOutput hS hmem ids _ fun i hi => hres i (List.mem_cons_of_mem _ hi)
    -- one output: written only if it is an `OriginalOutput`
    unfold recordOutput
    split
    · intro h t ht
      by_cases hh : h = id
      · subst hh
        rw [AList.lookup_insert] at ht
        cases ht
        exact ⟨hS, hres h (List.mem_cons_self ..), hmem⟩
      · rw [AList.lookup_insert_ne hh] at ht
        exact hu h t ht
    · exact hu

/-- Removing an accepted transaction with the outputs it made: since IDs are distinct, every
output pointing to it is among them. -/
theorem UtxoOk.removeTransaction (hS : IdsDistinct S) {pool : AList fun _ : Hash => TxDesc}
    {utxo : AList fun _ : Hash => PoolTx} {txHash : Hash} {txD : TxDesc}
    (hu : UtxoOk S pool utxo) (hp : PoolOk S pool) (hl : pool.lookup txHash = some txD) :
    UtxoOk S (pool.erase txHash)
      (txD.tx.tx.resultIds.foldl (fun utxo output => utxo.erase output) utxo) := by
  intro h t ht
  have ht' : (InvertedIndex.eraseAll txD.tx.tx.resultIds utxo).lookup h = some t := ht
  rw [InvertedIndex.lookup_eraseAll] at ht'
  by_cases hh : h ∈ txD.tx.tx.resultIds
  · rw [if_pos hh] at ht'
    cases ht'
  · rw [if_neg hh] at ht'
    obtain ⟨hSt, hres, hmem⟩ := hu h t ht'
    have hne : t.id ≠ txHash := fun he => by
      obtain ⟨hSd, hid⟩ := hp txHash txD hl
      have hsame := hS _ _ hSt hSd (he.trans hid.symm)
      exact hh (hsame ▸ hres)
    exact ⟨hSt, hres, AList.mem_erase.mpr ⟨hne, hmem⟩⟩

/-! ### `pool` and `orphans` -/

theorem PoolOk.insert {pool : AList fun _ : Hash => TxDesc} {d : TxDesc} (hp : PoolOk S pool)
    (hS : S d.tx) : PoolOk S (pool.insert d.tx.id d) := by
  intro id d' hd'
  by_cases hid : id = d.tx.id
  · subst hid
    rw [AList.lookup_insert] at hd'
    cases hd'
    exact ⟨hS, rfl⟩
  · rw [AList.lookup_insert_ne hid] at hd'
    exact hp id d' hd'

theorem PoolOk.erase {pool : AList fun _ : Hash => TxDesc} (hp : PoolOk S pool) (txHash : Hash) :
    PoolOk S (pool.erase txHash) := by
  intro id d hd
  by_cases hid : id = txHash
  · rw [hid, AList.lookup_erase] at hd
    cases hd
  · rw [AList.lookup_erase_ne hid] at hd
    exact hp id d hd

theorem OrphansOk.insert {orphans : Orphans} {o : OrphanTx} (ho : OrphansOk S orphans)
    (hS : S o.desc.tx) : OrphansOk S (orphans.insert o.desc.tx.id o) := by
  intro id o' ho'
  by_cases hid : id = o.desc.tx.id
  · subst hid
    rw [AList.lookup_insert] at ho'
    cases ho'
    exact ⟨hS, rfl⟩
  · rw [AList.lookup_insert_ne hid] at ho'
    exact ho id o' ho'

theorem OrphansOk.erase {orphans : Orphans} (ho : OrphansOk S orphans) (hash : Hash) :
    OrphansOk S (orphans.erase hash) := by
  intro id o hio
  by_cases hid : id = hash
  · rw [hid, AList.lookup_erase] at hio
    cases hio
  · rw [AList.lookup_erase_ne hid] at hio
    exact ho id o hio

/-! ### The calls -/

variable {tp tp' : TxPool} {now : Nat} {txD : TxDesc}

theorem Indexed.addOrphan {requireParents : List Hash} (hi : Indexed S tp) (hS : S txD.tx)
    (hspend : ∀ h ∈ requireParents, h ∈ txD.tx.tx.spentOutputIDs)
    (h : addOrphan now txD requireParents tp = .ok tp') : Indexed S tp' := by
  unfold Protocol.addOrphan at h
  split at h
  · cases h
  · cases h
    have hmem : txD.tx.id ∈ tp.orphans.insert txD.tx.id { desc := txD, expiration := now + orphanTTL } :=
      (AList.mem_insert _).mpr (.inl rfl)
    have hgrow : ∀ id ∈ tp.orphans,
        id ∈ tp.orphans.insert txD.tx.id { desc := txD, expiration := now + orphanTTL } :=
      fun id hid => (AList.mem_insert _).mpr (.inr hid)
    exact ⟨hi.pool, hi.orphans.insert (o := { desc := txD, expiration := now + orphanTTL }) hS,
      ByPrevOk.foldl_linkOrphan hS hmem requireParents (hi.byPrev.mono hgrow) hspend, hi.utxo⟩

theorem Indexed.addTransaction (hi : Indexed S tp) (hS : S txD.tx)
    (h : addTransaction now txD tp = .ok tp') : Indexed S tp' := by
  unfold Protocol.addTransaction at h
  split at h
  · cases h
  · cases h
    have hmem : txD.tx.id ∈ tp.pool.insert txD.tx.id { txD with added := now } :=
      (AList.mem_insert _).mpr (.inl rfl)
    have hgrow : ∀ id ∈ tp.pool, id ∈ tp.pool.insert txD.tx.id { txD with added := now } :=
      fun id hid => (AList.mem_insert _).mpr (.inr hid)
    exact ⟨hi.pool.insert (d := { txD with added := now }) hS, hi.orphans, hi.byPrev,
      UtxoOk.foldl_recordOutput hS hmem _ (hi.utxo.mono hgrow) fun _ h => h⟩

theorem Indexed.addTransactionOrKeep (hi : Indexed S tp) (hS : S txD.tx) :
    Indexed S (addTransactionOrKeep now txD tp) := by
  unfold Protocol.addTransactionOrKeep
  split
  · rename_i tp' h
    exact hi.addTransaction hS h
  · exact hi

theorem Indexed.removeOrphan (hS : IdsDistinct S) (hi : Indexed S tp) (hash : Hash) :
    Indexed S (removeOrphan hash tp) := by
  unfold Protocol.removeOrphan
  split
  · exact hi
  · rename_i orphan hl
    exact ⟨hi.pool, hi.orphans.erase hash, hi.byPrev.removeOrphan hS hi.orphans hl, hi.utxo⟩

theorem Indexed.removeTransaction (hS : IdsDistinct S) (hi : Indexed S tp) (txHash : Hash) :
    Indexed S (removeTransaction txHash tp) := by
  unfold Protocol.removeTransaction
  split
  · exact hi
  · rename_i txD hl
    exact ⟨hi.pool.erase txHash, hi.orphans, hi.byPrev, hi.utxo.removeTransaction hS hi.pool hl⟩

theorem Indexed.addRely {queue : List OrphanTx} (hi : Indexed S tp) (hq : QueueOk S queue)
    (tx : PoolTx) : Indexed S (addRely tx queue tp).2 ∧ QueueOk S (addRely tx queue tp).1 := by
  obtain ⟨hm, hq'⟩ := ByPrevOk.foldl_relyStep tx.tx.resultIds (queue, tp.orphansByPrev)
    hi.byPrev hq
  exact ⟨⟨hi.pool, hi.orphans, hm, hi.utxo⟩, hq'⟩

theorem Indexed.processQueue (hS : IdsDistinct S) (db : UtxoEntries) (now : Nat)
    (queue : List OrphanTx) (tp : TxPool) (hi : Indexed S tp) (hq : QueueOk S queue) :
    Indexed S (Protocol.processQueue db now queue tp) := by
  fun_induction Protocol.processQueue db now queue tp with
  | case1 tp => exact hi
  | case2 tp processOrphan queue hcheck relied ih =>
    -- an orphan that no longer waits: queue what waits on it, and accept it
    have hSo : S processOrphan.desc.tx := hq processOrphan (List.mem_cons_self ..)
    obtain ⟨hrelied, hqrelied⟩ :=
      hi.addRely (fun o ho => hq o (List.mem_cons_of_mem _ ho)) processOrphan.desc.tx
    exact ih ((hrelied.removeOrphan hS _).addTransactionOrKeep hSo) hqrelied
  | case3 tp processOrphan queue hcheck ih =>
    exact ih hi fun o ho => hq o (List.mem_cons_of_mem _ ho)

theorem Indexed.processOrphans (hS : IdsDistinct S) (db : UtxoEntries) (hi : Indexed S tp) :
    Indexed S (processOrphans db now txD tp) := by
  obtain ⟨hrelied, hq⟩ := hi.addRely (show QueueOk S [] from fun _ h => nomatch h) txD.tx
  exact Indexed.processQueue hS db now _ _ hrelied hq

theorem Indexed.processTransaction (hS : IdsDistinct S) (db : UtxoEntries) {tx : PoolTx}
    (hSt : S tx) (height fee : UInt64) (hi : Indexed S tp) :
    Indexed S (processTransaction db now tx height fee tp).2 := by
  unfold Protocol.processTransaction
  dsimp only
  split
  · -- an orphan, registered under entries of `checkOrphanUtxos`, which are prevouts
    split
    · rename_i tp' h
      exact hi.addOrphan hSt (fun _ hh => mem_checkOrphanUtxos hh) h
    · exact hi
  · split
    · rename_i tp' h
      exact (hi.addTransaction hSt h).processOrphans hS db
    · exact hi

theorem Indexed.expireOrphan (hS : IdsDistinct S) (now : Nat) :
    ∀ (orphans : List (Sigma fun _ : Hash => OrphanTx)) {tp : TxPool}, Indexed S tp →
      Indexed S (orphans.foldl (fun tp' orphan =>
        if orphan.2.expiration < now then Protocol.removeOrphan orphan.1 tp' else tp') tp)
  | [], _, hi => hi
  | orphan :: orphans, _, hi => by
    rw [List.foldl_cons]
    apply Indexed.expireOrphan hS now orphans
    split
    · exact hi.removeOrphan hS orphan.1
    · exact hi

theorem Indexed.apply (hS : IdsDistinct S) (call : PoolCall) (hcall : ∀ t ∈ call.txs, S t)
    (hi : Indexed S tp) : Indexed S (call.apply tp) := by
  cases call with
  | processTransaction db now tx height fee =>
    have hSt : S tx := hcall tx (List.mem_singleton_self tx)
    show Indexed S (ProcessTransaction db now tx height fee tp).2
    unfold ProcessTransaction
    split
    · exact hi
    · exact hi.processTransaction hS db hSt height fee
  | removeTransaction txHash => exact hi.removeTransaction hS txHash
  | expireOrphan now => exact Indexed.expireOrphan hS now _ hi

theorem Indexed.runPool (hS : IdsDistinct S) :
    ∀ (calls : List PoolCall) {tp : TxPool}, (∀ call ∈ calls, ∀ t ∈ call.txs, S t) →
      Indexed S tp → Indexed S (Protocol.runPool calls tp)
  | [], _, _, hi => hi
  | call :: calls, _, hcalls, hi => by
    unfold Protocol.runPool
    rw [List.foldl_cons]
    exact Indexed.runPool hS calls (fun c hc => hcalls c (List.mem_cons_of_mem _ hc))
      (hi.apply hS call (hcalls call (List.mem_cons_self ..)))

/-! ### What the indexes give -/

/-- Under a prevout, `orphansByPrev` lists a non-empty map of orphans that spend it. -/
theorem Indexed.orphansByPrev_spends (hS : IdsDistinct S) (hi : Indexed S tp) {h : Hash}
    {os : Orphans} (hl : tp.orphansByPrev.lookup h = some os) :
    os.entries ≠ [] ∧
      ∀ id ∈ os, ∃ o, tp.orphans.lookup id = some o ∧ h ∈ o.desc.tx.tx.spentOutputIDs := by
  obtain ⟨hne, hall⟩ := hi.byPrev h os hl
  refine ⟨hne, fun id hid => ?_⟩
  obtain ⟨o₀, ho₀⟩ := Option.isSome_iff_exists.mp (AList.lookup_isSome.mpr hid)
  obtain ⟨hS₀, hid₀, hspend, hmem⟩ := hall id o₀ ho₀
  obtain ⟨o, ho⟩ := Option.isSome_iff_exists.mp (AList.lookup_isSome.mpr hmem)
  -- the orphan held under `id` is the one listed, as both have the ID `id`
  obtain ⟨hSo, hido⟩ := hi.orphans id o ho
  have hsame : o₀.desc.tx = o.desc.tx := hS _ _ hS₀ hSo (hid₀.trans hido.symm)
  exact ⟨o, ho, hsame ▸ hspend⟩

/-- An output in `utxo` was made by the accepted transaction it points to. -/
theorem Indexed.utxo_pool (hi : Indexed S tp) {h : Hash} {t : PoolTx}
    (hl : tp.utxo.lookup h = some t) : t.id ∈ tp.pool ∧ h ∈ t.tx.resultIds :=
  ⟨(hi.utxo h t hl).2.2, (hi.utxo h t hl).2.1⟩

end Indexes

theorem txPool_indexes (calls : List PoolCall)
    (hid : ∀ c₁ ∈ calls, ∀ c₂ ∈ calls, ∀ t₁ ∈ c₁.txs, ∀ t₂ ∈ c₂.txs, t₁.id = t₂.id → t₁ = t₂) :
    (∀ h os, (runPool calls newTxPool).orphansByPrev.lookup h = some os → os.entries ≠ [] ∧
      ∀ id ∈ os, ∃ o, (runPool calls newTxPool).orphans.lookup id = some o ∧
        h ∈ o.desc.tx.tx.spentOutputIDs) ∧
    ∀ h t, (runPool calls newTxPool).utxo.lookup h = some t →
      t.id ∈ (runPool calls newTxPool).pool ∧ h ∈ t.tx.resultIds := by
  -- the transactions of the run
  let S : PoolTx → Prop := fun t => ∃ c ∈ calls, t ∈ c.txs
  have hS : IdsDistinct S := by
    rintro t₁ t₂ ⟨c₁, hc₁, ht₁⟩ ⟨c₂, hc₂, ht₂⟩ he
    exact hid c₁ hc₁ c₂ hc₂ t₁ ht₁ t₂ ht₂ he
  have hi : Indexed S (runPool calls newTxPool) :=
    Indexed.runPool hS calls (fun c hc t ht => ⟨c, hc, ht⟩) indexed_newTxPool
  exact ⟨fun h os hl => hi.orphansByPrev_spends hS hl, fun h t hl => hi.utxo_pool hl⟩

/-! ## A child waiting on two parents -/

/-- A transaction paid in KUSK that spends `spends` and makes `results`, all of them original
outputs of amount 1. -/
def sampleTx (id : UInt8) (spends results : List UInt8) : PoolTx where
  tx :=
    { id := byteHash id
      spentOutputIDs := spends.map byteHash
      resultIds := results.map byteHash
      entries := (spends ++ results).map fun b => (byteHash b, .originalOutput 1) }
  serializedSize := 100
  inputAssetIDs := spends.map fun _ => kuskAssetID
  outputs := results.map fun _ => (1, [Op.op1])

def parentOne : PoolTx := sampleTx 11 [1] [21]

def parentTwo : PoolTx := sampleTx 12 [2] [22]

/-- Spends one output of each parent; its last prevout is `parentTwo`'s. -/
def child : PoolTx := sampleTx 13 [21, 22] [23]

/-- A store that holds the parents' prevouts. -/
def parentsStore : UtxoEntries :=
  ((∅ : UtxoEntries).insert (byteHash 1) (newUtxoEntry .normal 1 false)).insert (byteHash 2)
    (newUtxoEntry .normal 1 false)

/-- The second parent, the child (an orphan, registered under the second parent's output though
it waits on the first's), the first parent, the child again (accepted, and still an orphan),
the second parent removed and sent again (which accepts the child a second time). -/
def childCalls : List PoolCall :=
  [.processTransaction parentsStore 0 parentTwo 5 0, .processTransaction parentsStore 1 child 5 0,
    .processTransaction parentsStore 2 parentOne 5 0, .processTransaction parentsStore 3 child 5 0,
    .removeTransaction parentTwo.id, .processTransaction parentsStore 4 parentTwo 5 0]

theorem txPool_indexes_childCalls :
    (∀ c₁ ∈ childCalls, ∀ c₂ ∈ childCalls, ∀ t₁ ∈ c₁.txs, ∀ t₂ ∈ c₂.txs,
      t₁.id = t₂.id → t₁ = t₂) ∧
    (∀ h os, (runPool childCalls newTxPool).orphansByPrev.lookup h = some os → os.entries ≠ [] ∧
      ∀ id ∈ os, ∃ o, (runPool childCalls newTxPool).orphans.lookup id = some o ∧
        h ∈ o.desc.tx.tx.spentOutputIDs) ∧
    ∀ h t, (runPool childCalls newTxPool).utxo.lookup h = some t →
      t.id ∈ (runPool childCalls newTxPool).pool ∧ h ∈ t.tx.resultIds :=
  ⟨by decide +kernel, txPool_indexes childCalls (by decide +kernel)⟩

/-- Each transaction is sent while the pool does not hold it. After four calls the child is both
in the pool and an orphan, and after six it has been announced twice with no removal between. -/
theorem childAnnouncedTwice_counterexample :
    (∀ i ∈ List.range 6, ∀ t ∈ (childCalls.getD i (.expireOrphan 0)).txs,
      t.id ∉ (runPool (childCalls.take i) newTxPool).pool) ∧
    (child.id ∈ (runPool (childCalls.take 4) newTxPool).pool ∧
      child.id ∈ (runPool (childCalls.take 4) newTxPool).orphans) ∧
    (runPool childCalls newTxPool).msgs.map (fun m => (m.msgType, m.desc.tx.id)) =
      [(.newTx, parentTwo.id), (.newTx, parentOne.id), (.newTx, child.id),
        (.removeTx, parentTwo.id), (.newTx, parentTwo.id), (.newTx, child.id)] := by
  decide +kernel

end KuskCore.Protocol
