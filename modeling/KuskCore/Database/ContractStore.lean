import KuskCore.State.ContractView
import KuskCore.KeyedUpdates
import KuskCore.Database.UtxoStore

/-!
# The stored contract registry

`database/contract_view.go`, with the contract part of `Store.SaveChainStatus` and of
`Chain.reorganizeChain`. A reorganisation builds one view: it detaches the detached blocks, tip
first, then attaches the attached blocks, fork point first. `SaveChainStatus` then writes one
batch: `deleteContractView` deletes each detached registration that is the stored one, and
`saveContractView` sets each attached registration for a hash the store does not hold, or
whose stored registration is being detached. Both read the store as it was before the batch,
and a later operation of the batch overrides an earlier one (`lookup_writeBatch`).

If the store holds the registry of the main chain, it holds after a reorganisation the
registry of the new main chain (`reorganizeContracts_registry`), and so along any sequence of
reorganisations (`contractRegistry_reorganizations`). Its two hypotheses on the chains rule out
two cases. The first is a transaction ID that occurs twice on a main chain: a detached
registration equal to the stored one from below the fork point would delete it
(`repeatedTx_counterexample`). The second is a transaction that registers two contracts with
colliding hashes: `DetachBlock` keeps the last of a transaction's outputs and the registry the
first.
-/

namespace KuskCore.Database

open KeyedUpdates KuskCore.Types KuskCore.State KuskCore.Vm

/-- The contract entries of the store: a contract hash (the key `c:` and the hash) to the
registering transaction's ID followed by the contract. -/
abbrev ContractStore := AList fun _ : Bytes => Bytes

/-- An operation of a `dbm.Batch`. -/
inductive BatchOp where
  | set (key value : Bytes)
  | delete (key : Bytes)

def BatchOp.key : BatchOp → Bytes
  | .set key _ => key
  | .delete key => key

/-- What the operation leaves at its key. -/
def BatchOp.value : BatchOp → Option Bytes
  | .set _ value => some value
  | .delete _ => none

/-- `Batch.Write`: the operations in order. -/
def writeBatch (ops : List BatchOp) (db : ContractStore) : ContractStore :=
  ops.foldl (fun db op => put op.key op.value db) db

/-- `deleteContractView`. `bytes.Equal` takes a missing entry as empty. -/
def deleteContractView (db : ContractStore) (view : ContractViewpoint) : List BatchOp :=
  view.detachEntries.entries.flatMap fun entry =>
    if (db.lookup entry.1).getD [] = entry.2 then [.delete entry.1] else []

/-- `saveContractView`. -/
def saveContractView (db : ContractStore) (view : ContractViewpoint) : List BatchOp :=
  view.attachEntries.entries.flatMap fun entry =>
    (if db.lookup entry.1 = none then [.set entry.1 entry.2] else []) ++
      match view.detachEntries.lookup entry.1 with
      | some value => if (db.lookup entry.1).getD [] = value then [.set entry.1 entry.2] else []
      | none => []

/-- The contract part of `SaveChainStatus`: one batch, the deletes first. -/
def saveContractStatus (db : ContractStore) (view : ContractViewpoint) : ContractStore :=
  writeBatch (deleteContractView db view ++ saveContractView db view) db

section Reorganize

variable (sha3 : Bytes → Bytes)

/-- The contract part of `Chain.reorganizeChain`, with the detached and the attached blocks each
in chain order. -/
def reorganizeContracts (detached attached : List ContractBlock) (db : ContractStore) :
    Option ContractStore := do
  let view ← detached.reverse.foldlM (fun view block => view.detachBlock sha3 block)
    newContractViewpoint
  let view ← attached.foldlM (fun view block => view.applyBlock sha3 block) view
  pure (saveContractStatus db view)

end Reorganize

/-! ## The batch, key by key -/

/-- After a batch, a key holds what the last operation on it leaves, or what it held. -/
theorem lookup_writeBatch (k : Bytes) :
    ∀ (ops : List BatchOp) (db : ContractStore),
      (writeBatch ops db).lookup k =
        (((ops.filter fun op => op.key = k).getLast?).map BatchOp.value).getD (db.lookup k)
  | [], db => rfl
  | op :: ops, db => by
    have ih := lookup_writeBatch k ops (put op.key op.value db)
    unfold writeBatch at ih ⊢
    rw [List.foldl_cons, ih, lookup_put, List.filter_cons]
    by_cases hk : op.key = k
    · -- this operation counts unless a later one on the key overrides it
      rw [if_pos hk.symm, decide_eq_true hk, if_pos rfl, List.getLast?_cons]
      cases (ops.filter fun op => op.key = k).getLast? <;> rfl
    · have hk' : ¬k = op.key := fun h => hk h.symm
      rw [if_neg hk', decide_eq_false hk]
      rfl

/-- The operations of a loop over the entries of a map, each making operations on its own key
only: at one key, those of that key's entry. -/
theorem filter_flatMap_entries (f : (Sigma fun _ : Bytes => Bytes) → List BatchOp)
    (hf : ∀ entry, ∀ op ∈ f entry, op.key = entry.1) (k : Bytes) :
    ∀ {entries : List (Sigma fun _ : Bytes => Bytes)}, entries.NodupKeys →
      ((entries.flatMap f).filter fun op => op.key = k) =
        match entries.dlookup k with
        | some value => f ⟨k, value⟩
        | none => []
  | [], _ => rfl
  | ⟨k', v⟩ :: entries, hnd => by
    have hnd' := List.nodupKeys_cons.mp hnd
    rw [List.flatMap_cons, List.filter_append, filter_flatMap_entries f hf k hnd'.2]
    by_cases hk : k = k'
    · -- the entry of the key, and no later one
      subst hk
      have hnone : entries.dlookup k = none := List.dlookup_eq_none.mpr hnd'.1
      rw [hnone, List.dlookup_cons_eq, List.append_nil, List.filter_eq_self]
      intro op hop
      exact decide_eq_true (hf _ op hop)
    · rw [List.dlookup_cons_ne _ _ hk]
      have hnil : ((f ⟨k', v⟩).filter fun op => op.key = k) = [] := by
        rw [List.filter_eq_nil_iff]
        intro op hop hkey
        exact hk ((of_decide_eq_true hkey).symm.trans (hf _ op hop))
      rw [hnil, List.nil_append]

theorem deleteContractView_at (db : ContractStore) (view : ContractViewpoint) (k : Bytes) :
    ((deleteContractView db view).filter fun op => op.key = k) =
      match view.detachEntries.lookup k with
      | some value => if (db.lookup k).getD [] = value then [.delete k] else []
      | none => [] := by
  unfold deleteContractView
  rw [filter_flatMap_entries _ _ k view.detachEntries.nodupKeys]
  · rfl
  · intro entry op hop
    split at hop
    · rw [List.mem_singleton.mp hop]
      rfl
    · cases hop

theorem saveContractView_at (db : ContractStore) (view : ContractViewpoint) (k : Bytes) :
    ((saveContractView db view).filter fun op => op.key = k) =
      match view.attachEntries.lookup k with
      | some value =>
        (if db.lookup k = none then [.set k value] else []) ++
          match view.detachEntries.lookup k with
          | some detached => if (db.lookup k).getD [] = detached then [.set k value] else []
          | none => []
      | none => [] := by
  unfold saveContractView
  rw [filter_flatMap_entries _ _ k view.attachEntries.nodupKeys]
  · rfl
  · intro entry op hop
    rcases List.mem_append.mp hop with hop | hop
    · split at hop
      · rw [List.mem_singleton.mp hop]
        rfl
      · cases hop
    · split at hop
      · split at hop
        · rw [List.mem_singleton.mp hop]
          rfl
        · cases hop
      · cases hop

/-- The batch at a hash whose stored registration is not the detached one: it stays, whatever
is attached. -/
theorem lookup_saveContractStatus_of_stored {db : ContractStore} {view : ContractViewpoint}
    {k c : Bytes} (hc : db.lookup k = some c) (hd : view.detachEntries.lookup k ≠ some c) :
    (saveContractStatus db view).lookup k = some c := by
  have hops : ((deleteContractView db view ++ saveContractView db view).filter
      fun op => op.key = k) = [] := by
    rw [List.filter_append, deleteContractView_at, saveContractView_at, hc]
    cases hv : view.detachEntries.lookup k with
    | none => cases view.attachEntries.lookup k <;> simp
    | some v =>
      have hne : c ≠ v := fun h => hd (h ▸ hv)
      cases view.attachEntries.lookup k <;> simp [hne]
  rw [saveContractStatus, lookup_writeBatch, hops, hc]
  rfl

/-- The batch at a hash that holds what is detached (a registration or nothing): it then holds
what is attached. -/
theorem lookup_saveContractStatus_of_detached {db : ContractStore} {view : ContractViewpoint}
    {k : Bytes} (hd : db.lookup k = view.detachEntries.lookup k) :
    (saveContractStatus db view).lookup k = view.attachEntries.lookup k := by
  rw [saveContractStatus, lookup_writeBatch, List.filter_append, deleteContractView_at,
    saveContractView_at, hd]
  cases view.detachEntries.lookup k <;> cases view.attachEntries.lookup k <;> simp [BatchOp.value]

/-! ## The registry of a chain -/

/-- The IDs of a chain's transactions, block by block. -/
def chainTxIds (chain : List ContractBlock) : List Hash :=
  chain.flatMap fun block => block.transactions.map ContractTx.id

theorem mem_chainTxIds {chain : List ContractBlock} {block : ContractBlock} {tx : ContractTx}
    (hblock : block ∈ chain) (htx : tx ∈ block.transactions) : tx.id ∈ chainTxIds chain :=
  List.mem_flatMap.mpr ⟨block, hblock, List.mem_map_of_mem htx⟩

/-- The stored value starts with the registering transaction's ID, 32 bytes long. -/
theorem id_eq_of_append_eq {a b : Hash} {c d : Bytes} (h : a.bytes ++ c = b.bytes ++ d) :
    a = b := by
  have hbytes := (List.append_inj h (a.length_bytes.trans b.length_bytes.symm)).1
  cases a
  cases b
  cases hbytes
  rfl

section Registry

variable (sha3 : Bytes → Bytes)

theorem registry_append (chain₁ chain₂ : List ContractBlock) (hash : Bytes) :
    registry sha3 (chain₁ ++ chain₂) hash = (registry sha3 chain₁ hash).or (registry sha3 chain₂ hash) := by
  rw [registry, registry, registry, chainRegistrations, List.flatMap_append, List.dlookup_append]
  rfl

/-- A registration of a chain is the ID of one of its transactions followed by a contract. -/
theorem registry_eq_some {chain : List ContractBlock} {hash value : Bytes}
    (h : registry sha3 chain hash = some value) :
    ∃ block ∈ chain, ∃ tx ∈ block.transactions, ∃ contract, value = tx.id.bytes ++ contract := by
  have hmem := List.of_mem_dlookup h
  obtain ⟨block, hblock, hmem⟩ := List.mem_flatMap.mp hmem
  obtain ⟨tx, htx, hmem⟩ := List.mem_flatMap.mp hmem
  obtain ⟨program, -, hreg⟩ := List.mem_filterMap.mp hmem
  unfold registration at hreg
  split at hreg
  · obtain ⟨contract, -, hc⟩ := Option.map_eq_some_iff.mp hreg
    exact ⟨block, hblock, tx, htx, contract, (congrArg Sigma.snd hc).symm⟩
  · cases hreg

/-- With distinct transaction IDs, a registration below the fork point is none of those
above it. -/
theorem registry_ne_of_ids_nodup {common detached : List ContractBlock}
    (hids : (chainTxIds (common ++ detached)).Nodup) {hash value : Bytes}
    (hc : registry sha3 common hash = some value) : registry sha3 detached hash ≠ some value := by
  intro hd
  obtain ⟨block₁, hblock₁, tx₁, htx₁, contract₁, rfl⟩ := registry_eq_some sha3 hc
  obtain ⟨block₂, hblock₂, tx₂, htx₂, contract₂, heq⟩ := registry_eq_some sha3 hd
  rw [chainTxIds, List.flatMap_append, List.nodup_append] at hids
  exact hids.2.2 _ (mem_chainTxIds hblock₁ htx₁) _ (mem_chainTxIds hblock₂ htx₂)
    (id_eq_of_append_eq heq)

/-! ## One reorganisation -/

/-- A reorganisation from the main chain common ++ detached to common ++ attached takes a store
that holds the registry of the old chain to one that holds the registry of the new. -/
theorem reorganizeContracts_registry (common detached attached : List ContractBlock)
    (db : ContractStore) (hdb : ∀ hash, db.lookup hash = registry sha3 (common ++ detached) hash)
    (hids : (chainTxIds (common ++ detached)).Nodup)
    (hnc : ∀ block ∈ detached, ∀ tx ∈ block.transactions, tx.NoCollision sha3) :
    ∃ db', reorganizeContracts sha3 detached attached db = some db' ∧
      ∀ hash, db'.lookup hash = registry sha3 (common ++ attached) hash := by
  obtain ⟨view₁, hview₁, hdetach⟩ :=
    detaches_foldlM_detachBlock sha3 detached.reverse newContractViewpoint
  obtain ⟨view₂, hview₂, hattach⟩ := attaches_foldlM_applyBlock sha3 attached view₁
  refine ⟨saveContractStatus db view₂, ?_, ?_⟩
  · simp only [reorganizeContracts, hview₁, hview₂, Option.bind_eq_bind, Option.bind_some]
    rfl
  -- the view holds the registry of the detached blocks and that of the attached ones
  have hdv : ∀ hash, view₂.detachEntries.lookup hash = registry sha3 detached hash := by
    intro hash
    rw [hattach.1, hdetach.2, dlookup_detachRegistrations sha3 detached hnc]
    exact Option.or_none
  have hav : ∀ hash, view₂.attachEntries.lookup hash = registry sha3 attached hash := by
    intro hash
    rw [hattach.2, hdetach.1]
    exact Option.none_or
  intro hash
  rw [registry_append]
  cases hcommon : registry sha3 common hash with
  | some value =>
    -- a registration from below the fork point is kept
    have hstored : db.lookup hash = some value := by
      rw [hdb, registry_append, hcommon, Option.some_or]
    rw [Option.some_or]
    exact lookup_saveContractStatus_of_stored hstored
      (by rw [hdv]; exact registry_ne_of_ids_nodup sha3 hids hcommon)
  | none =>
    have hdetached : db.lookup hash = view₂.detachEntries.lookup hash := by
      rw [hdb, registry_append, hcommon, Option.none_or, hdv]
    rw [lookup_saveContractStatus_of_detached hdetached, hav, Option.none_or]

end Registry

/-! ## Reorganisations, one after another -/

/-- The main chain, and the contract entries of the store. -/
structure ContractChain where
  main : List ContractBlock
  db : ContractStore

/-- A reorganisation: the main chain keeps its first keep blocks, those above them are
detached, and attached is attached in their place. -/
structure Reorg where
  keep : Nat
  attached : List ContractBlock

def Reorg.newMain (reorg : Reorg) (main : List ContractBlock) : List ContractBlock :=
  main.take reorg.keep ++ reorg.attached

/-- The main chains a sequence of reorganisations starts from, one before each. -/
def mainChains : List Reorg → List ContractBlock → List (List ContractBlock)
  | [], _ => []
  | reorg :: reorgs, main => main :: mainChains reorgs (reorg.newMain main)

section Run

variable (sha3 : Bytes → Bytes)

def reorganize (chain : ContractChain) (reorg : Reorg) : Option ContractChain :=
  (reorganizeContracts sha3 (chain.main.drop reorg.keep) reorg.attached chain.db).map
    fun db => ⟨reorg.newMain chain.main, db⟩

def runReorganize (reorgs : List Reorg) (chain : ContractChain) : Option ContractChain :=
  reorgs.foldlM (reorganize sha3) chain

/-- The store holds the registry of the main chain. -/
def ContractChain.Consistent (chain : ContractChain) : Prop :=
  ∀ hash, chain.db.lookup hash = registry sha3 chain.main hash

/-- What a reorganisation needs of the main chain it starts from: no transaction ID twice, and
no transaction registering two contracts with colliding hashes. -/
def ChainOk (main : List ContractBlock) : Prop :=
  (chainTxIds main).Nodup ∧ ∀ block ∈ main, ∀ tx ∈ block.transactions, tx.NoCollision sha3

instance (main : List ContractBlock) : Decidable (ChainOk sha3 main) :=
  inferInstanceAs (Decidable ((chainTxIds main).Nodup ∧ ∀ block ∈ main, ∀ tx ∈ block.transactions,
    ∀ e₁ ∈ tx.registrations sha3, ∀ e₂ ∈ tx.registrations sha3, e₁.1 = e₂.1 → e₁.2 = e₂.2))

theorem reorganize_consistent {chain : ContractChain} (hc : chain.Consistent sha3)
    (hok : ChainOk sha3 chain.main) (reorg : Reorg) :
    ∃ chain', reorganize sha3 chain reorg = some chain' ∧
      chain'.main = reorg.newMain chain.main ∧ chain'.Consistent sha3 := by
  have hsplit : chain.main.take reorg.keep ++ chain.main.drop reorg.keep = chain.main :=
    List.take_append_drop _ _
  obtain ⟨db', hdb', hregistry⟩ := reorganizeContracts_registry sha3
    (chain.main.take reorg.keep) (chain.main.drop reorg.keep) reorg.attached chain.db
    (by rw [hsplit]; exact hc) (by rw [hsplit]; exact hok.1)
    (fun block hblock => hok.2 block (List.mem_of_mem_drop hblock))
  refine ⟨⟨reorg.newMain chain.main, db'⟩, ?_, rfl, hregistry⟩
  rw [reorganize, hdb']
  rfl

/-- Along any sequence of reorganisations from a store that holds the registry of the main
chain, each starting from a main chain with distinct transaction IDs and no colliding
registrations within a transaction, every step succeeds and the store ends holding the registry
of the final main chain. -/
theorem contractRegistry_reorganizations (reorgs : List Reorg) (chain : ContractChain)
    (hc : ∀ hash, chain.db.lookup hash = registry sha3 chain.main hash)
    (hok : ∀ main ∈ mainChains reorgs chain.main, ChainOk sha3 main) :
    ∃ chain', runReorganize sha3 reorgs chain = some chain' ∧
      chain'.main = reorgs.foldl (fun main reorg => reorg.newMain main) chain.main ∧
      ∀ hash, chain'.db.lookup hash = registry sha3 chain'.main hash := by
  induction reorgs generalizing chain with
  | nil => exact ⟨chain, rfl, rfl, hc⟩
  | cons reorg reorgs ih =>
    simp only [mainChains, List.mem_cons, forall_eq_or_imp] at hok
    obtain ⟨chain₁, hstep, hmain₁, hc₁⟩ := reorganize_consistent sha3 hc hok.1 reorg
    obtain ⟨chain', hrun, hmain', hc'⟩ := ih chain₁ hc₁ (by rw [hmain₁]; exact hok.2)
    refine ⟨chain', ?_, ?_, hc'⟩
    · rw [runReorganize, List.foldlM_cons, hstep]
      exact hrun
    · rw [hmain', hmain₁, List.foldl_cons]

end Run

/-- A registration of the contract [0x51]: FAIL, the tag, the version 1 and the contract. -/
def registerProgram : Bytes := [0x6a, 0x04, 0x62, 0x63, 0x72, 0x70, 0x01, 0x01, 0x01, 0x51]

/-- A block of one transaction, with ID byteHash b, that registers [0x51]. -/
def registeringBlock (b : UInt8) : ContractBlock := ⟨[⟨byteHash b, [registerProgram]⟩]⟩

/-- Register by the block A, replace A by B and A (B's registration is now the first), then
detach A again. -/
def sampleReorgs : List Reorg :=
  [⟨0, [registeringBlock 1]⟩, ⟨0, [registeringBlock 2, registeringBlock 1]⟩, ⟨1, []⟩]

theorem contractRegistry_reorganizations_sampleReorgs :
    (∀ hash, (∅ : ContractStore).lookup hash = registry id [] hash) ∧
      (∀ main ∈ mainChains sampleReorgs [], ChainOk id main) ∧
      ∃ chain', runReorganize id sampleReorgs ⟨[], ∅⟩ = some chain' ∧
        chain'.main = sampleReorgs.foldl (fun main reorg => reorg.newMain main) [] ∧
        ∀ hash, chain'.db.lookup hash = registry id chain'.main hash :=
  have hc : ∀ hash, (∅ : ContractStore).lookup hash = registry id [] hash := fun _ => rfl
  have hok : ∀ main ∈ mainChains sampleReorgs [], ChainOk id main := by decide +kernel
  ⟨hc, hok, contractRegistry_reorganizations id sampleReorgs ⟨[], ∅⟩ hc hok⟩

/-- A transaction on the main chain twice: its block is detached from above the other, the
registration equals the stored one, and the batch deletes it although the new main chain still
registers the contract. -/
theorem repeatedTx_counterexample :
    (runReorganize id [⟨0, [registeringBlock 1, registeringBlock 1]⟩] ⟨[], ∅⟩).map
        (fun chain => (chain.db.lookup [0x51], registry id chain.main [0x51])) =
      some (some ((byteHash 1).bytes ++ [0x51]), some ((byteHash 1).bytes ++ [0x51])) ∧
    (runReorganize id [⟨0, [registeringBlock 1, registeringBlock 1]⟩, ⟨1, []⟩] ⟨[], ∅⟩).map
        (fun chain => (chain.main.length, chain.db.lookup [0x51], registry id chain.main [0x51])) =
      some (1, none, some ((byteHash 1).bytes ++ [0x51])) := by
  decide +kernel

end KuskCore.Database
