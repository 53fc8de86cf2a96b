import KuskCore.StateRun
import KuskCore.WeightedMap
import KuskCore.Protocol.Reorganize

/-!
# The fast-sync block storage

`storage` of `netsync/chainmgr/storage.go`: the blocks a fast sync has downloaded, by height. A
block is kept in RAM while the account `actualUsage` leaves room under `maxByteOfStorageRAM`, and
written to the local store otherwise; the block processor reads and then deletes them.

The account was meant to be the bytes held in RAM (`Storage.Exact`). It only ever over-counts them:
every run keeps the RAM held at most the account, and the account under the limit
(`Storage.Accounted`, `reachable_accounted`). `writeBlocks` adds a block's size for every write,
also over a height already held in RAM, while `deleteBlock` subtracts only the size of the entry
there, so each write over a RAM entry leaves that entry's size in the account for good
(`writeBlockPass_drift`); only `resetParameter` clears it.

The text `MarshalText` makes of a block, and the block `UnmarshalText` reads back, are parameters:
the storage only takes their length and passes them on.
-/

namespace KuskCore.Netsync

open Protocol WeightedMap

/-- `types.Block`, by its header: the storage files a block under its height and the fetcher
follows its hash links. -/
structure Block where
  blockHeader : BlockHeader
  deriving DecidableEq, Repr

/-- `blockStorage`: the block, the peer it came from, its size in RAM, and where it is. -/
structure BlockStorage where
  block : Option Block
  peerID : String
  size : Nat
  isRAM : Bool
  deriving DecidableEq, Repr

/-- The errors of the storage. -/
inductive StorageError where
  /-- `errors.Wrap(err, "Marshal block header")` in `writeBlocks` -/
  | marshalBlockHeader
  /-- `MarshalText`'s own error, from `levelDBStorage.writeBlock` -/
  | marshal
  /-- "can't find block from storage" -/
  | storageFindBlock
  /-- "can't find block from DB" -/
  | dbFindBlock
  /-- `UnmarshalText`'s error -/
  | unmarshal
  deriving DecidableEq, Repr

/-- `storage`, with the rows of its `levelDBStorage` by height. -/
structure Storage where
  actualUsage : Int
  blocks : AList fun _ : Nat => BlockStorage
  localStore : AList fun _ : Nat => List UInt8

def maxByteOfStorageRAM : Int := 800 * 1024 * 1024

/-- `newStorage`, after `clearData` has emptied the local store. -/
def newStorage : Storage := ⟨0, ∅, ∅⟩

section Calls

variable (marshalText : Block → Option (List UInt8)) (unmarshalText : List UInt8 → Option Block)

/-- `levelDBStorage.writeBlock`: the block's text under its height. -/
def writeBlock (block : Block) (localStore : AList fun _ : Nat => List UInt8) :
    Except StorageError (AList fun _ : Nat => List UInt8) :=
  match marshalText block with
  | none => .error .marshal
  | some binaryBlock => .ok (localStore.insert block.blockHeader.height binaryBlock)

/-- One pass of the loop of `writeBlocks`: the block goes to RAM while the account has room, and to
the local store otherwise. -/
def writeBlockPass (peerID : String) (block : Block) : EStateM StorageError Storage Unit := do
  let s ← get
  match marshalText block with
  | none => throw .marshalBlockHeader
  | some binaryBlock =>
    if (binaryBlock.length : Int) + s.actualUsage < maxByteOfStorageRAM then
      set { s with
        blocks := s.blocks.insert block.blockHeader.height
          ⟨some block, peerID, binaryBlock.length, true⟩
        actualUsage := s.actualUsage + binaryBlock.length }
    else
      match writeBlock marshalText block s.localStore with
      | .error err => throw err
      | .ok localStore =>
        set { s with
          localStore
          blocks := s.blocks.insert block.blockHeader.height ⟨none, peerID, 0, false⟩ }

/-- `storage.writeBlocks`. -/
def writeBlocks (peerID : String) (blocks : List Block) : EStateM StorageError Storage Unit :=
  blocks.forM (writeBlockPass marshalText peerID)

/-- `storage.readBlock`. A block in the local store is read back into its entry, through the
pointer the map holds. -/
def readBlock (height : Nat) : EStateM StorageError Storage BlockStorage := do
  let s ← get
  match s.blocks.lookup height with
  | none => throw .storageFindBlock
  | some blockStore =>
    if blockStore.isRAM then pure blockStore
    else
      match s.localStore.lookup height with
      | none => throw .dbFindBlock
      | some binaryBlock =>
        match unmarshalText binaryBlock with
        | none => throw .unmarshal
        | some block =>
          let blockStore := { blockStore with block := some block }
          set { s with blocks := s.blocks.insert height blockStore }
          pure blockStore

/-- `storage.deleteBlock`: only a block in RAM is deleted. -/
def deleteBlock (height : Nat) (s : Storage) : Storage :=
  match s.blocks.lookup height with
  | none => s
  | some blockStore =>
    if blockStore.isRAM then
      { s with actualUsage := s.actualUsage - blockStore.size, blocks := s.blocks.erase height }
    else s

/-- `storage.resetParameter`. -/
def resetParameter (s : Storage) : Storage := { s with actualUsage := 0, blocks := ∅, localStore := ∅ }

/-- The storage's calls. -/
inductive StorageCall where
  | writeBlocks (peerID : String) (blocks : List Block)
  | readBlock (height : Nat)
  | deleteBlock (height : Nat)
  | resetParameter

/-- The state a call leaves, whether it returns or fails. -/
def StorageCall.step : StorageCall → Storage → Storage
  | .writeBlocks peerID blocks, s =>
    ((KuskCore.Netsync.writeBlocks marshalText peerID blocks).run s).state
  | .readBlock height, s => ((KuskCore.Netsync.readBlock unmarshalText height).run s).state
  | .deleteBlock height, s => KuskCore.Netsync.deleteBlock height s
  | .resetParameter, s => KuskCore.Netsync.resetParameter s

/-- The states a fast sync's storage reaches from `newStorage`, by any calls. -/
inductive Reachable : Storage → Prop where
  | init : Reachable newStorage
  | step {s : Storage} (call : StorageCall) :
      Reachable s → Reachable (call.step marshalText unmarshalText s)

end Calls

/-! ## The account -/

/-- The size of an entry's block in RAM, or zero on disk. -/
def ramSize (blockStore : BlockStorage) : Nat := if blockStore.isRAM then blockStore.size else 0

/-- The bytes held in RAM. -/
def ramUsage (blocks : AList fun _ : Nat => BlockStorage) : Nat := total ramSize blocks

/-- The RAM held at a height. -/
def ramAt (height : Nat) (blocks : AList fun _ : Nat => BlockStorage) : Nat :=
  weightAt ramSize height blocks

/-- What the account counts beyond the bytes held in RAM. -/
def Storage.drift (s : Storage) : Int := s.actualUsage - ramUsage s.blocks

/-- The account covers the RAM held and stays under the limit. -/
structure Storage.Accounted (s : Storage) : Prop where
  ram_le : (ramUsage s.blocks : Int) ≤ s.actualUsage
  lt_max : s.actualUsage < maxByteOfStorageRAM

/-- The account is the RAM held. -/
def Storage.Exact (s : Storage) : Prop := s.actualUsage = ramUsage s.blocks

theorem ramUsage_insert (height : Nat) (blockStore : BlockStorage)
    (blocks : AList fun _ : Nat => BlockStorage) :
    (ramUsage (blocks.insert height blockStore) : Int) =
      ramUsage blocks + ramSize blockStore - ramAt height blocks := by
  have h := total_insert ramSize height blockStore blocks
  unfold ramUsage ramAt
  omega

theorem ramUsage_erase (height : Nat) (blocks : AList fun _ : Nat => BlockStorage) :
    (ramUsage (blocks.erase height) : Int) = ramUsage blocks - ramAt height blocks := by
  have h := total_erase ramSize height blocks
  unfold ramUsage ramAt
  omega

theorem ramAt_of_lookup {height : Nat} {blocks : AList fun _ : Nat => BlockStorage}
    {blockStore : BlockStorage} (h : blocks.lookup height = some blockStore) :
    ramAt height blocks = ramSize blockStore := by
  unfold ramAt weightAt
  rw [h]
  rfl

theorem ramAt_le (height : Nat) (blocks : AList fun _ : Nat => BlockStorage) :
    ramAt height blocks ≤ ramUsage blocks := by
  have h := total_erase ramSize height blocks
  unfold ramUsage ramAt
  omega

/-! ## One call -/

section Step

variable {marshalText : Block → Option (List UInt8)} {unmarshalText : List UInt8 → Option Block}

variable (marshalText) in
/-- What one pass of `writeBlocks` does: fail in the state it found, or file the block in RAM
with its size added to the account, or on disk. -/
theorem writeBlockPass_cases (peerID : String) (block : Block) (s : Storage) :
    (∃ e, (writeBlockPass marshalText peerID block).run s = .error e s) ∨
    (∃ binaryBlock : List UInt8, (binaryBlock.length : Int) + s.actualUsage < maxByteOfStorageRAM ∧
      (writeBlockPass marshalText peerID block).run s = .ok ()
        { s with
          blocks := s.blocks.insert block.blockHeader.height
            ⟨some block, peerID, binaryBlock.length, true⟩
          actualUsage := s.actualUsage + binaryBlock.length }) ∨
    (∃ localStore, (writeBlockPass marshalText peerID block).run s = .ok ()
      { s with
        localStore
        blocks := s.blocks.insert block.blockHeader.height ⟨none, peerID, 0, false⟩ }) := by
  unfold writeBlockPass
  cases hm : marshalText block with
  | none => exact .inl ⟨_, rfl⟩
  | some binaryBlock =>
    by_cases hroom : (binaryBlock.length : Int) + s.actualUsage < maxByteOfStorageRAM
    · refine .inr (.inl ⟨binaryBlock, hroom, ?_⟩)
      simp only [EStateM.run, bind, EStateM.bind, get, getThe, MonadStateOf.get, EStateM.get,
        if_pos hroom]
      rfl
    · cases hw : writeBlock marshalText block s.localStore with
      | error err =>
        refine .inl ⟨err, ?_⟩
        simp only [EStateM.run, bind, EStateM.bind, get, getThe, MonadStateOf.get, EStateM.get,
          if_neg hroom, hw]
        rfl
      | ok localStore =>
        refine .inr (.inr ⟨localStore, ?_⟩)
        simp only [EStateM.run, bind, EStateM.bind, get, getThe, MonadStateOf.get, EStateM.get,
          if_neg hroom, hw]
        rfl

/-- A pass whose block marshals files it. -/
theorem writeBlockPass_ok (peerID : String) {block : Block} (s : Storage)
    (hm : (marshalText block).isSome) :
    ∃ s', (writeBlockPass marshalText peerID block).run s = .ok () s' := by
  obtain ⟨binaryBlock, hbb⟩ := Option.isSome_iff_exists.mp hm
  unfold writeBlockPass
  by_cases hroom : (binaryBlock.length : Int) + s.actualUsage < maxByteOfStorageRAM
  · exact ⟨_, by simp only [EStateM.run, bind, EStateM.bind, get, getThe, MonadStateOf.get,
      EStateM.get, hbb, if_pos hroom]; rfl⟩
  · have hw : writeBlock marshalText block s.localStore =
        .ok (s.localStore.insert block.blockHeader.height binaryBlock) := by
      unfold writeBlock
      rw [hbb]
    exact ⟨_, by simp only [EStateM.run, bind, EStateM.bind, get, getThe, MonadStateOf.get,
      EStateM.get, hbb, if_neg hroom, hw]; rfl⟩

/-- `writeBlocks` of blocks that all marshal returns. -/
theorem writeBlocks_ok (peerID : String) :
    ∀ {blocks : List Block} (s : Storage), (∀ b ∈ blocks, (marshalText b).isSome) →
      ∃ s', (writeBlocks marshalText peerID blocks).run s = .ok () s'
  | [], s, _ => ⟨s, rfl⟩
  | block :: blocks, s, hm => by
    obtain ⟨s₁, h₁⟩ := writeBlockPass_ok peerID s (hm block (List.mem_cons_self ..))
    obtain ⟨s₂, h₂⟩ := writeBlocks_ok peerID s₁ fun b hb => hm b (List.mem_cons_of_mem _ hb)
    exact ⟨s₂, Iff.mpr EStateM.run_forM_cons_eq_ok ⟨s₁, h₁, h₂⟩⟩

/-- A pass that files a block adds to the drift the RAM it overwrites at the block's height. -/
theorem writeBlockPass_drift {peerID : String} {block : Block} {s s' : Storage}
    (h : (writeBlockPass marshalText peerID block).run s = .ok () s') :
    s'.drift = s.drift + ramAt block.blockHeader.height s.blocks := by
  rcases writeBlockPass_cases marshalText peerID block s with
    ⟨e, he⟩ | ⟨binaryBlock, -, hram⟩ | ⟨ls, hdisk⟩
  · rw [he] at h
    cases h
  · rw [hram] at h
    cases h
    unfold Storage.drift
    rw [ramUsage_insert]
    simp only [ramSize, if_pos]
    omega
  · rw [hdisk] at h
    cases h
    unfold Storage.drift
    rw [ramUsage_insert]
    simp only [ramSize, Bool.false_eq_true, if_false]
    omega

theorem writeBlockPass_accounted (peerID : String) (block : Block) :
    EStateM.Preserves Storage.Accounted (writeBlockPass marshalText peerID block) := by
  intro s hs
  have hle := ramAt_le block.blockHeader.height s.blocks
  have ⟨hram, hmax⟩ := hs
  rcases writeBlockPass_cases marshalText peerID block s with
    ⟨e, he⟩ | ⟨binaryBlock, hroom, hr⟩ | ⟨ls, hd⟩
  · rw [he]
    exact hs
  · rw [hr, EStateM.Result.state_ok]
    constructor
    · dsimp only
      rw [ramUsage_insert]
      simp only [ramSize, ↓reduceIte]
      omega
    · dsimp only
      omega
  · rw [hd, EStateM.Result.state_ok]
    constructor
    · dsimp only
      rw [ramUsage_insert]
      simp only [ramSize, Bool.false_eq_true, ↓reduceIte]
      omega
    · exact hmax

/-- Exactness survives a pass at a height that holds no RAM. -/
theorem writeBlockPass_exact {peerID : String} {block : Block} {s : Storage} (hs : s.Exact)
    (hfresh : ramAt block.blockHeader.height s.blocks = 0) :
    ((writeBlockPass marshalText peerID block).run s).state.Exact := by
  rcases writeBlockPass_cases marshalText peerID block s with
    ⟨e, he⟩ | ⟨binaryBlock, -, hr⟩ | ⟨ls, hd⟩
  · rw [he]
    exact hs
  · have hdrift := writeBlockPass_drift hr
    rw [hr, EStateM.Result.state_ok]
    unfold Storage.Exact Storage.drift at *
    omega
  · have hdrift := writeBlockPass_drift hd
    rw [hd, EStateM.Result.state_ok]
    unfold Storage.Exact Storage.drift at *
    omega

/-- A pass only touches the block's height. -/
theorem writeBlockPass_ramAt_ne {peerID : String} {block : Block} {s : Storage} {height : Nat}
    (hne : height ≠ block.blockHeader.height) :
    ramAt height ((writeBlockPass marshalText peerID block).run s).state.blocks =
      ramAt height s.blocks := by
  rcases writeBlockPass_cases marshalText peerID block s with
    ⟨e, he⟩ | ⟨binaryBlock, -, hr⟩ | ⟨ls, hd⟩
  · rw [he]
    rfl
  · rw [hr]
    exact weightAt_insert_ne ramSize hne _ _
  · rw [hd]
    exact weightAt_insert_ne ramSize hne _ _

/-- `writeBlocks` of blocks at distinct heights none of which holds RAM keeps the account
exact. -/
theorem writeBlocks_exact (peerID : String) :
    ∀ {blocks : List Block} {s : Storage}, s.Exact →
      (blocks.map fun b => b.blockHeader.height).Nodup →
      (∀ b ∈ blocks, ramAt b.blockHeader.height s.blocks = 0) →
      ((writeBlocks marshalText peerID blocks).run s).state.Exact
  | [], s, hs, _, _ => hs
  | block :: blocks, s, hs, hnodup, hfresh => by
    rw [List.map_cons, List.nodup_cons] at hnodup
    have hpass : ((writeBlockPass marshalText peerID block).run s).state.Exact :=
      writeBlockPass_exact hs (hfresh block (List.mem_cons_self ..))
    unfold writeBlocks
    rw [EStateM.forM_cons_eq, EStateM.run_bind]
    rcases writeBlockPass_cases marshalText peerID block s with
      ⟨e, he⟩ | ⟨binaryBlock, -, hr⟩ | ⟨ls, hd⟩ <;>
    [ (rw [he]; exact hs);
      (rw [hr] at hpass ⊢; dsimp only);
      (rw [hd] at hpass ⊢; dsimp only) ] <;>
    · refine writeBlocks_exact peerID hpass hnodup.2 fun b hb => ?_
      have hne : b.blockHeader.height ≠ block.blockHeader.height := fun h =>
        hnodup.1 (h ▸ List.mem_map.mpr ⟨b, hb, rfl⟩)
      rw [← hfresh b (List.mem_cons_of_mem _ hb)]
      exact weightAt_insert_ne ramSize hne _ _

variable (unmarshalText) in
/-- What `readBlock` can do: fail in the state it found, return a RAM entry, or read a disk entry
back into the map, still on disk. -/
theorem readBlock_cases (height : Nat) (s : Storage) :
    (∃ e, (readBlock unmarshalText height).run s = .error e s) ∨
    (∃ blockStore, (readBlock unmarshalText height).run s = .ok blockStore s) ∨
    (∃ blockStore block, s.blocks.lookup height = some blockStore ∧ blockStore.isRAM = false ∧
      (readBlock unmarshalText height).run s = .ok { blockStore with block := some block }
        { s with blocks := s.blocks.insert height { blockStore with block := some block } }) := by
  unfold readBlock
  cases hl : s.blocks.lookup height with
  | none => exact .inl ⟨_, by simp only [EStateM.run, bind, EStateM.bind, get, getThe,
      MonadStateOf.get, EStateM.get, hl]; rfl⟩
  | some blockStore =>
    cases hram : blockStore.isRAM with
    | true => exact .inr (.inl ⟨blockStore, by simp only [EStateM.run, bind, EStateM.bind, get,
        getThe, MonadStateOf.get, EStateM.get, hl, hram, if_true]; rfl⟩)
    | false =>
      cases hd : s.localStore.lookup height with
      | none => exact .inl ⟨_, by simp only [EStateM.run, bind, EStateM.bind, get, getThe,
          MonadStateOf.get, EStateM.get, hl, hram, hd, Bool.false_eq_true, if_false]; rfl⟩
      | some binaryBlock =>
        cases hu : unmarshalText binaryBlock with
        | none => exact .inl ⟨_, by simp only [EStateM.run, bind, EStateM.bind, get, getThe,
            MonadStateOf.get, EStateM.get, hl, hram, hd, hu, Bool.false_eq_true, if_false]; rfl⟩
        | some block =>
          refine .inr (.inr ⟨blockStore, block, rfl, hram, ?_⟩)
          simp only [EStateM.run, bind, EStateM.bind, get, getThe, MonadStateOf.get, EStateM.get,
            hl, hram, hd, hu, Bool.false_eq_true, if_false]
          rfl

variable (unmarshalText) in
/-- `readBlock` leaves the RAM held as it was. -/
theorem readBlock_ramUsage (height : Nat) (s : Storage) :
    ((readBlock unmarshalText height).run s).state.actualUsage = s.actualUsage ∧
      ramUsage ((readBlock unmarshalText height).run s).state.blocks = ramUsage s.blocks := by
  rcases readBlock_cases unmarshalText height s with
    ⟨e, he⟩ | ⟨b, hb⟩ | ⟨blockStore, block, hl, hram, hr⟩
  · rw [he]
    exact ⟨rfl, rfl⟩
  · rw [hb]
    exact ⟨rfl, rfl⟩
  · rw [hr, EStateM.Result.state_ok]
    refine ⟨rfl, ?_⟩
    -- the entry stays on disk, where it weighs nothing before and after
    have h := ramUsage_insert height { blockStore with block := some block } s.blocks
    have hold : ramSize blockStore = 0 := by simp [ramSize, hram]
    have hnew : ramSize { blockStore with block := some block } = 0 := by simp [ramSize, hram]
    rw [ramAt_of_lookup hl, hold, hnew] at h
    dsimp only
    omega

theorem deleteBlock_drift (height : Nat) (s : Storage) : (deleteBlock height s).drift = s.drift := by
  unfold deleteBlock
  cases hl : s.blocks.lookup height with
  | none => rfl
  | some blockStore =>
    dsimp only
    split
    · rename_i hram
      unfold Storage.drift
      dsimp only
      rw [ramUsage_erase, ramAt_of_lookup hl]
      simp only [ramSize, if_pos hram]
      omega
    · rfl

theorem deleteBlock_le (height : Nat) (s : Storage) :
    (deleteBlock height s).actualUsage ≤ s.actualUsage := by
  unfold deleteBlock
  cases s.blocks.lookup height with
  | none => exact Int.le_refl _
  | some blockStore =>
    dsimp only
    split
    · dsimp only
      omega
    · exact Int.le_refl _

/-- Every call keeps the account covering the RAM held and under the limit. -/
theorem step_accounted (call : StorageCall) {s : Storage} (hs : s.Accounted) :
    (call.step marshalText unmarshalText s).Accounted := by
  cases call with
  | writeBlocks peerID blocks =>
    exact EStateM.preserves_forM (fun b _ => writeBlockPass_accounted peerID b) s hs
  | readBlock height =>
    obtain ⟨husage, hram⟩ := readBlock_ramUsage unmarshalText height s
    exact ⟨by rw [StorageCall.step, husage, hram]; exact hs.ram_le,
      by rw [StorageCall.step, husage]; exact hs.lt_max⟩
  | deleteBlock height =>
    have hd := deleteBlock_drift height s
    have hle := deleteBlock_le height s
    unfold Storage.drift at hd
    exact ⟨by rw [StorageCall.step]; have := hs.ram_le; omega,
      by rw [StorageCall.step]; have := hs.lt_max; omega⟩
  | resetParameter => exact ⟨Int.le_refl _, show (0 : Int) < maxByteOfStorageRAM by decide⟩

theorem reachable_accounted {s : Storage} (h : Reachable marshalText unmarshalText s) :
    s.Accounted := by
  induction h with
  | init => exact ⟨Int.le_refl _, show (0 : Int) < maxByteOfStorageRAM by decide⟩
  | step call _ ih => exact step_accounted call ih

end Step

/-- The storage's RAM account, for every encoding of blocks. Every run keeps it at least the RAM
held and under the limit. `readBlock` and `deleteBlock` keep it exact, `resetParameter` makes it
exact, and `writeBlocks` keeps it exact over distinct heights holding no RAM; a pass of
`writeBlocks` adds to what it over-counts the RAM already held at the block's height. -/
theorem storage_accounting (marshalText : Block → Option (List UInt8))
    (unmarshalText : List UInt8 → Option Block) :
    (∀ s, Reachable marshalText unmarshalText s →
      (ramUsage s.blocks : Int) ≤ s.actualUsage ∧ s.actualUsage < maxByteOfStorageRAM) ∧
    (∀ s height, s.Exact → ((readBlock unmarshalText height).run s).state.Exact) ∧
    (∀ s height, s.Exact → (deleteBlock height s).Exact) ∧
    (∀ s, (resetParameter s).Exact) ∧
    (∀ s peerID blocks, s.Exact → (blocks.map fun b => b.blockHeader.height).Nodup →
      (∀ b ∈ blocks, ramAt b.blockHeader.height s.blocks = 0) →
      ((writeBlocks marshalText peerID blocks).run s).state.Exact) ∧
    (∀ s s' peerID block, (writeBlockPass marshalText peerID block).run s = .ok () s' →
      s'.drift = s.drift + ramAt block.blockHeader.height s.blocks) := by
  refine ⟨fun s h => ⟨(reachable_accounted h).ram_le, (reachable_accounted h).lt_max⟩,
    fun s height hs => ?_, fun s height hs => ?_, fun s => rfl,
    fun s peerID blocks => writeBlocks_exact peerID, fun s s' peerID block => writeBlockPass_drift⟩
  · obtain ⟨husage, hram⟩ := readBlock_ramUsage unmarshalText height s
    unfold Storage.Exact at *
    rw [husage, hram]
    exact hs
  · have hd := deleteBlock_drift height s
    unfold Storage.Exact Storage.drift at *
    omega

/-- A block of ten bytes at height 5, written by two requests, as a continuation request writes
the last block of the response before. -/
def rewrittenStorage : Storage :=
  let marshalText : Block → Option (List UInt8) := fun _ => some (List.replicate 10 0)
  let s := ((writeBlocks marshalText "peer" [⟨⟨1, 5, 0⟩⟩]).run newStorage).state
  ((writeBlocks marshalText "peer" [⟨⟨1, 5, 0⟩⟩]).run s).state

/-- The account holds twenty bytes for the ten in RAM, and after the block is deleted it still
holds ten with nothing in RAM. -/
theorem rewrite_counterexample :
    rewrittenStorage.actualUsage = 20 ∧ ramUsage rewrittenStorage.blocks = 10 ∧
      (deleteBlock 5 rewrittenStorage).actualUsage = 10 ∧
      ramUsage (deleteBlock 5 rewrittenStorage).blocks = 0 := by
  decide

end KuskCore.Netsync
