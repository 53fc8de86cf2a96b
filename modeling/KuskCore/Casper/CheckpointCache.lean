import KuskCore.Lru
import KuskCore.Casper.Checkpoint
import KuskCore.Protocol.Reorganize

/-!
# The parent-checkpoint cache

`Casper.parentCheckpointHash` and `Casper.parentCheckpointHashByPrevHash` of
`protocol/casper/casper.go`, through which `ParentCheckpoint`, `ParentCheckpointByPrevHash` and
`Chain.GetValidator` find the checkpoint whose validators govern a block. The walk of
`parentCheckpointHashByPrevHash` goes down from a block through `store.GetBlockHeader` and stops
at a height that is a multiple of `BlocksOfEpoch`, which it returns, at a height just above one,
whose parent it returns, or at a block that `prevCheckpointCache` knows; that answer it also caches
under the block the walk started from. `parentCheckpointHash` answers for a block from the cache
or from the walk at its parent, and caches what the walk found.

The cache is read under the block an entry stands for, meaning "the checkpoint that governs this
block", and written under the start of a walk; the two meanings agree because a walk stops before
it passes a checkpoint height. In a block tree rooted at genesis (`RootedTree`) every entry maps a
block to the hash of its nearest strict ancestor at a checkpoint height (`CacheSound`). Each call
keeps this and answers the nearest checkpoint, whatever the cache holds
(`parentCheckpointHashByPrevHash_spec`, `parentCheckpointHash_cases`); saving blocks keeps it too
(`CacheSound.mono`), so it holds along every run of a node (`CheckpointState.Reachable.inv`).

Hashes are numbers, and a pointer is the hash it points to. The loop takes fuel, and `none` stands
for fuel running out; a walk from a block at height `n` finishes with any fuel above `n`.
-/

namespace KuskCore.Protocol

open ParentChain

section Calls

variable (cfg : CasperConfig) (store : Nat → Option BlockHeader)

/-- The loop of `parentCheckpointHashByPrevHash` at `iterHash`, for the walk from
`prevBlockHash`, with fuel. -/
def parentCheckpointHashLoop (prevBlockHash : Nat) :
    Nat → Nat → Lru.Cache Nat Nat → Option (Except StoreError Nat × Lru.Cache Nat Nat)
  | 0, _, _ => none
  | fuel + 1, iterHash, cache =>
    match getBlockHeader store iterHash with
    | .error err => some (.error err, cache)
    | .ok block =>
      let mod := block.height % cfg.blocksOfEpoch
      if mod = 0 then some (.ok iterHash, cache)
      else if mod = 1 then some (.ok block.previousBlockHash, cache)
      else
        match cache.get iterHash with
        | (some data, cache) => some (.ok data, cache.add prevBlockHash data)
        | (none, cache) => parentCheckpointHashLoop prevBlockHash fuel block.previousBlockHash cache

/-- `Casper.parentCheckpointHashByPrevHash`. -/
def parentCheckpointHashByPrevHash (fuel prevBlockHash : Nat) (cache : Lru.Cache Nat Nat) :
    Option (Except StoreError Nat × Lru.Cache Nat Nat) :=
  parentCheckpointHashLoop cfg store prevBlockHash fuel prevBlockHash cache

/-- `Casper.parentCheckpointHash`. -/
def parentCheckpointHash (fuel blockHash : Nat) (cache : Lru.Cache Nat Nat) :
    Option (Except StoreError Nat × Lru.Cache Nat Nat) :=
  match cache.get blockHash with
  | (some data, cache) => some (.ok data, cache)
  | (none, cache) =>
    match getBlockHeader store blockHash with
    | .error err => some (.error err, cache)
    | .ok block =>
      match parentCheckpointHashByPrevHash cfg store fuel block.previousBlockHash cache with
      | none => none
      | some (.error err, cache) => some (.error err, cache)
      | some (.ok result, cache) => some (.ok result, cache.add blockHash result)

end Calls

/-- `NewCasper`'s `prevCheckpointCache`: `common.NewCache(1024)`. -/
def newCheckpointCache : Lru.Cache Nat Nat := .new 1024

/-! ## What the cache stands for -/

section Spec

variable (cfg : CasperConfig) (store : Nat → Option BlockHeader)

/-- The header's height is a multiple of `BlocksOfEpoch`: it ends an epoch. -/
def AtCheckpoint (header : BlockHeader) : Prop := header.height % cfg.blocksOfEpoch = 0

/-- `c` is the nearest ancestor-or-self of `p` at a checkpoint height. -/
def IsCheckpointOf (p c : BlockHeader) : Prop :=
  IsNearest (parentHeader store) (AtCheckpoint cfg) p c

/-- `c` is the nearest strict ancestor of `b` at a checkpoint height: its parent checkpoint. -/
def IsParentCheckpointOf (b c : BlockHeader) : Prop :=
  ∃ p, parentHeader store b = some p ∧ IsCheckpointOf cfg store p c

/-- What an entry `hash ↦ checkpointHash` of `prevCheckpointCache` means. -/
def CorrectEntry (hash checkpointHash : Nat) : Prop :=
  ∃ block c, store hash = some block ∧ IsParentCheckpointOf cfg store block c ∧
    c.hash = checkpointHash

/-- Every entry of the cache is correct. -/
def CacheSound (cache : Lru.Cache Nat Nat) : Prop := cache.All (CorrectEntry cfg store)

/-- A block tree rooted at genesis: a block above height zero has its parent in the store, as no
block is saved before its parent. -/
structure RootedTree : Prop extends BlockTree store where
  parent_stored : ∀ {hash header}, store hash = some header → 0 < header.height →
    ∃ parent, store header.previousBlockHash = some parent

end Spec

section Lemmas

variable {cfg : CasperConfig} {store : Nat → Option BlockHeader}

/-- The checkpoint of a block is the highest of its ancestors at a checkpoint height. -/
theorem IsCheckpointOf.height_le (ht : BlockTree store) {p c d : BlockHeader}
    (hp : Stored store p) (h : IsCheckpointOf cfg store p c)
    (hd : IsAncestor (parentHeader store) d p) (hat : AtCheckpoint cfg d) : d.height ≤ c.height :=
  IsNearest.height_le ht.graded hp h hd hat

/-- The block just above an epoch's last block has its parent at the checkpoint height. -/
theorem atCheckpoint_of_mod_eq_one {header parent : BlockHeader}
    (h : header.height = parent.height + 1) (hmod : header.height % cfg.blocksOfEpoch = 1) :
    AtCheckpoint cfg parent := by
  have hpos := cfg.blocksOfEpoch_pos
  have hE : 1 < cfg.blocksOfEpoch := by
    rcases Nat.lt_or_ge 1 cfg.blocksOfEpoch with hlt | hle
    · exact hlt
    · rw [show cfg.blocksOfEpoch = 1 by omega, Nat.mod_one] at hmod
      exact absurd hmod (by decide)
  have hlt := Nat.mod_lt parent.height hpos
  rw [h, Nat.add_mod_eq_ite, Nat.mod_eq_of_lt hE] at hmod
  unfold AtCheckpoint
  split at hmod <;> omega

theorem height_pos_of_not_atCheckpoint {header : BlockHeader} (h : ¬AtCheckpoint cfg header) :
    0 < header.height := by
  apply Nat.pos_of_ne_zero
  intro h0
  apply h
  rw [AtCheckpoint, h0, Nat.zero_mod]

/-- A block off a checkpoint height has the checkpoint of its walk as its parent checkpoint. -/
theorem IsCheckpointOf.isParentCheckpointOf {p c : BlockHeader} (h : IsCheckpointOf cfg store p c)
    (hp : ¬AtCheckpoint cfg p) : IsParentCheckpointOf cfg store p c :=
  h.exists_parent hp

/-- Saving blocks keeps every entry correct: the walks they name stay in the store. -/
theorem CacheSound.mono {store' : Nat → Option BlockHeader}
    (hext : ∀ {hash header}, store hash = some header → store' hash = some header)
    {cache : Lru.Cache Nat Nat} (hsound : CacheSound cfg store cache) :
    CacheSound cfg store' cache := by
  intro hash checkpointHash hl
  obtain ⟨block, c, hblock, ⟨p, hp, hc⟩, hhash⟩ := hsound hash checkpointHash hl
  exact ⟨block, c, hext hblock, ⟨p, hext hp, IsNearest.mono hext hc⟩, hhash⟩

/-- The parent checkpoint of a block is one block. -/
theorem IsParentCheckpointOf.unique {b c c' : BlockHeader} (h : IsParentCheckpointOf cfg store b c)
    (h' : IsParentCheckpointOf cfg store b c') : c = c' := by
  obtain ⟨p, hp, hc⟩ := h
  obtain ⟨p', hp', hc'⟩ := h'
  rw [hp, Option.some.injEq] at hp'
  subst hp'
  exact IsNearest.unique hc hc'

/-! ## The walk -/

theorem parentCheckpointHashByPrevHash_of_not_stored {fuel prevBlockHash : Nat}
    {cache : Lru.Cache Nat Nat} (h : store prevBlockHash = none) :
    parentCheckpointHashByPrevHash cfg store (fuel + 1) prevBlockHash cache =
      some (.error (.noBlockHeader prevBlockHash), cache) := by
  simp [parentCheckpointHashByPrevHash, parentCheckpointHashLoop, getBlockHeader, h]

section Walk

variable (hroot : RootedTree store)
include hroot

/-- One run of the loop from a block `iter` that the walk from `prev` reached through blocks off
checkpoint heights: with fuel above `iter`'s height it answers, and whatever it answers is the
checkpoint of `prev`, with the cache still sound. -/
theorem parentCheckpointHashLoop_spec {prevBlockHash : Nat} {prev : BlockHeader}
    (hprev : store prevBlockHash = some prev) :
    ∀ (fuel iterHash : Nat) {iter : BlockHeader} {l : List BlockHeader}
      {cache : Lru.Cache Nat Nat},
      store iterHash = some iter → Descent (parentHeader store) prev l iter →
      (∀ a ∈ l, ¬AtCheckpoint cfg a) → CacheSound cfg store cache →
      (iter.height < fuel →
        (parentCheckpointHashLoop cfg store prevBlockHash fuel iterHash cache).isSome) ∧
      ∀ {result cache'},
        parentCheckpointHashLoop cfg store prevBlockHash fuel iterHash cache =
          some (result, cache') →
        CacheSound cfg store cache' ∧
          ∃ c, IsCheckpointOf cfg store prev c ∧ result = .ok c.hash
  | 0, _, _, _, _, _, _, _, _ => ⟨fun h => absurd h (Nat.not_lt_zero _), fun h => by cases h⟩
  | fuel + 1, iterHash, iter, l, cache, hiter, hwalk, hl, hsound => by
    have hget : getBlockHeader store iterHash = .ok iter := by rw [getBlockHeader, hiter]
    have hkey : iter.hash = iterHash := hroot.keyed hiter
    simp only [parentCheckpointHashLoop, hget]
    by_cases h0 : AtCheckpoint cfg iter
    · -- the walk is at an epoch's last block
      rw [if_pos (show iter.height % cfg.blocksOfEpoch = 0 from h0)]
      refine ⟨fun _ => rfl, fun h => ?_⟩
      obtain ⟨rfl, rfl⟩ := Prod.mk.inj (Option.some.inj h)
      exact ⟨hsound, iter, (isNearest_self h0).of_descent hwalk hl, by rw [hkey]⟩
    rw [if_neg (show ¬iter.height % cfg.blocksOfEpoch = 0 from h0)]
    obtain ⟨parent, hparent⟩ := hroot.parent_stored hiter (height_pos_of_not_atCheckpoint h0)
    have hheight := hroot.height_parent hiter hparent
    by_cases h1 : iter.height % cfg.blocksOfEpoch = 1
    · -- the walk is just above one: the parent is the checkpoint, unread
      rw [if_pos h1]
      refine ⟨fun _ => rfl, fun h => ?_⟩
      obtain ⟨rfl, rfl⟩ := Prod.mk.inj (Option.some.inj h)
      have hc : IsCheckpointOf cfg store iter parent :=
        (isNearest_self (atCheckpoint_of_mod_eq_one hheight h1)).cons hparent h0
      exact ⟨hsound, parent, hc.of_descent hwalk hl, by rw [hroot.keyed hparent]⟩
    rw [if_neg h1]
    rcases hcache : cache.get iterHash with ⟨_ | data, cache₁⟩
    · -- a miss: one link down, the walk now through `iter` as well
      obtain ⟨-, hsound₁⟩ := Lru.Cache.All.get_eq hsound hcache
      have hl' : ∀ a ∈ l ++ [iter], ¬AtCheckpoint cfg a := by
        intro a ha
        rcases List.mem_append.mp ha with ha | ha
        · exact hl a ha
        · rw [List.mem_singleton.mp ha]
          exact h0
      have ih := parentCheckpointHashLoop_spec hprev fuel iter.previousBlockHash hparent
        (hwalk.trans (.cons hparent (.nil parent))) hl' hsound₁
      exact ⟨fun hf => ih.1 (by omega), ih.2⟩
    · -- a hit: the entry of `iter` is its parent checkpoint, and so the start's
      obtain ⟨hentry, hsound₁⟩ := Lru.Cache.All.get_eq hsound hcache
      obtain ⟨block, c, hblock, ⟨p, hp, hc⟩, hdata⟩ := hentry data rfl
      rw [hiter, Option.some.injEq] at hblock
      subst hblock hdata
      have hcheck : IsCheckpointOf cfg store prev c := (hc.cons hp h0).of_descent hwalk hl
      have hentry' : CorrectEntry cfg store prevBlockHash c.hash :=
        ⟨prev, c, hprev, hcheck.isParentCheckpointOf (hwalk.not_start hl h0), rfl⟩
      refine ⟨fun _ => rfl, fun h => ?_⟩
      obtain ⟨rfl, rfl⟩ := Prod.mk.inj (Option.some.inj h)
      exact ⟨Lru.Cache.All.add hsound₁ hentry', c, hcheck, rfl⟩

/-- `parentCheckpointHashByPrevHash` from a stored block: with fuel above its height it answers,
and every answer is the block's checkpoint, with the cache still sound. -/
theorem parentCheckpointHashByPrevHash_spec (fuel : Nat) {prevBlockHash : Nat} {prev : BlockHeader}
    {cache : Lru.Cache Nat Nat} (hprev : store prevBlockHash = some prev)
    (hsound : CacheSound cfg store cache) :
    (prev.height < fuel →
      (parentCheckpointHashByPrevHash cfg store fuel prevBlockHash cache).isSome) ∧
    ∀ {result cache'},
      parentCheckpointHashByPrevHash cfg store fuel prevBlockHash cache = some (result, cache') →
      CacheSound cfg store cache' ∧
        ∃ c, IsCheckpointOf cfg store prev c ∧ result = .ok c.hash :=
  parentCheckpointHashLoop_spec hroot hprev fuel prevBlockHash hprev (.nil prev)
    (fun _ h => absurd h List.not_mem_nil) hsound

theorem parentCheckpointHashByPrevHash_ok (fuel : Nat) {prevBlockHash : Nat} {prev : BlockHeader}
    {cache : Lru.Cache Nat Nat} (hprev : store prevBlockHash = some prev)
    (hfuel : prev.height < fuel) (hsound : CacheSound cfg store cache) :
    ∃ c cache', parentCheckpointHashByPrevHash cfg store fuel prevBlockHash cache =
      some (.ok c.hash, cache') ∧ IsCheckpointOf cfg store prev c := by
  have hspec := parentCheckpointHashByPrevHash_spec hroot fuel hprev hsound
  obtain ⟨⟨result, cache'⟩, h⟩ := Option.isSome_iff_exists.mp (hspec.1 hfuel)
  obtain ⟨-, c, hc, rfl⟩ := hspec.2 h
  exact ⟨c, cache', h, hc⟩

/-- What a call of `parentCheckpointHashByPrevHash` can give: the error of a missing block, or
the block's checkpoint; the cache stays sound either way. -/
theorem parentCheckpointHashByPrevHash_cases {fuel prevBlockHash : Nat}
    {cache cache' : Lru.Cache Nat Nat} {result : Except StoreError Nat}
    (hsound : CacheSound cfg store cache)
    (h : parentCheckpointHashByPrevHash cfg store fuel prevBlockHash cache =
      some (result, cache')) :
    CacheSound cfg store cache' ∧
      (store prevBlockHash = none ∧ result = .error (.noBlockHeader prevBlockHash) ∨
        ∃ prev c, store prevBlockHash = some prev ∧ IsCheckpointOf cfg store prev c ∧
          result = .ok c.hash) := by
  cases hprev : store prevBlockHash with
  | some prev =>
    obtain ⟨hsound', c, hc, hresult⟩ :=
      (parentCheckpointHashByPrevHash_spec hroot fuel hprev hsound).2 h
    exact ⟨hsound', .inr ⟨prev, c, rfl, hc, hresult⟩⟩
  | none =>
    cases fuel with
    | zero => cases h
    | succ fuel =>
      rw [parentCheckpointHashByPrevHash_of_not_stored hprev] at h
      obtain ⟨rfl, rfl⟩ := Prod.mk.inj (Option.some.inj h)
      exact ⟨hsound, .inl ⟨rfl, rfl⟩⟩

/-- What a call of `parentCheckpointHash` can give: every answer is a correct entry for the block,
and the cache stays sound. -/
theorem parentCheckpointHash_cases {fuel blockHash : Nat} {cache cache' : Lru.Cache Nat Nat}
    {result : Except StoreError Nat} (hsound : CacheSound cfg store cache)
    (h : parentCheckpointHash cfg store fuel blockHash cache = some (result, cache')) :
    CacheSound cfg store cache' ∧
      ∀ r, result = .ok r → CorrectEntry cfg store blockHash r := by
  unfold parentCheckpointHash at h
  rcases hcache : cache.get blockHash with ⟨_ | data, cache₁⟩ <;> rw [hcache] at h <;>
    dsimp only at h
  · -- a miss: the walk at the parent answers, and its answer is cached
    obtain ⟨-, hsound₁⟩ := Lru.Cache.All.get_eq hsound hcache
    cases hblock : store blockHash with
    | none =>
      rw [getBlockHeader, hblock] at h
      obtain ⟨rfl, rfl⟩ := Prod.mk.inj (Option.some.inj h)
      exact ⟨hsound₁, fun _ hr => by cases hr⟩
    | some block =>
      rw [getBlockHeader, hblock] at h
      dsimp only at h
      rcases hwalk :
          parentCheckpointHashByPrevHash cfg store fuel block.previousBlockHash cache₁ with
        _ | ⟨_ | r, cache₂⟩ <;> rw [hwalk] at h <;> dsimp only at h
      · cases h
      · obtain ⟨rfl, rfl⟩ := Prod.mk.inj (Option.some.inj h)
        refine ⟨(parentCheckpointHashByPrevHash_cases hroot hsound₁ hwalk).1, fun _ hr => ?_⟩
        cases hr
      · obtain ⟨rfl, rfl⟩ := Prod.mk.inj (Option.some.inj h)
        obtain ⟨hsound₂, hcases⟩ := parentCheckpointHashByPrevHash_cases hroot hsound₁ hwalk
        rcases hcases with ⟨-, hne⟩ | ⟨parent, c, hparent, hc, hr⟩
        · cases hne
        · cases hr
          have hentry : CorrectEntry cfg store blockHash c.hash :=
            ⟨block, c, hblock, ⟨parent, hparent, hc⟩, rfl⟩
          exact ⟨Lru.Cache.All.add hsound₂ hentry, fun _ hr => by cases hr; exact hentry⟩
  · -- a hit: the entry is correct
    obtain ⟨hentry, hsound₁⟩ := Lru.Cache.All.get_eq hsound hcache
    obtain ⟨rfl, rfl⟩ := Prod.mk.inj (Option.some.inj h)
    exact ⟨hsound₁, fun _ hr => by cases hr; exact hentry data rfl⟩

/-- A block above genesis gets its parent checkpoint from `parentCheckpointHash`, given fuel
above its height. -/
theorem parentCheckpointHash_ok (fuel : Nat) {blockHash : Nat} {block : BlockHeader}
    {cache : Lru.Cache Nat Nat} (hblock : store blockHash = some block) (hpos : 0 < block.height)
    (hfuel : block.height < fuel) (hsound : CacheSound cfg store cache) :
    ∃ c cache', parentCheckpointHash cfg store fuel blockHash cache =
      some (.ok c.hash, cache') ∧ IsParentCheckpointOf cfg store block c := by
  unfold parentCheckpointHash
  rcases hcache : cache.get blockHash with ⟨_ | data, cache₁⟩
  · -- a miss: the walk from the parent answers
    obtain ⟨-, hsound₁⟩ := Lru.Cache.All.get_eq hsound hcache
    obtain ⟨parent, hparent⟩ := hroot.parent_stored hblock hpos
    have hheight := hroot.height_parent hblock hparent
    obtain ⟨c, cache₂, hwalk, hc⟩ :=
      parentCheckpointHashByPrevHash_ok hroot fuel hparent (by omega) hsound₁
    refine ⟨c, cache₂.add blockHash c.hash, ?_, parent, hparent, hc⟩
    dsimp only
    rw [getBlockHeader, hblock]
    dsimp only
    rw [hwalk]
  · -- a hit: the entry is the parent checkpoint
    obtain ⟨hentry, -⟩ := Lru.Cache.All.get_eq hsound hcache
    obtain ⟨block', c, hblock', hc, rfl⟩ := hentry data rfl
    rw [hblock, Option.some.injEq] at hblock'
    subst hblock'
    exact ⟨c, cache₁, rfl, hc⟩

end Walk

end Lemmas

/-! ## Runs -/

/-- What the cache sees of a node: its store and `prevCheckpointCache`. -/
structure CheckpointState where
  store : Nat → Option BlockHeader
  cache : Lru.Cache Nat Nat

/-- A step of a node: a call of either function, or blocks saved to the store. The cache takes
its lock for each `Get` and `Add`; a call is one step. -/
inductive CheckpointStep (cfg : CasperConfig) : CheckpointState → CheckpointState → Prop
  | parentCheckpointHash {store cache cache' fuel blockHash result} :
      parentCheckpointHash cfg store fuel blockHash cache = some (result, cache') →
      CheckpointStep cfg ⟨store, cache⟩ ⟨store, cache'⟩
  | parentCheckpointHashByPrevHash {store cache cache' fuel prevBlockHash result} :
      parentCheckpointHashByPrevHash cfg store fuel prevBlockHash cache = some (result, cache') →
      CheckpointStep cfg ⟨store, cache⟩ ⟨store, cache'⟩
  | saveBlocks {store store' cache} : RootedTree store' →
      (∀ {hash header}, store hash = some header → store' hash = some header) →
      CheckpointStep cfg ⟨store, cache⟩ ⟨store', cache⟩

/-- The states of a node from `NewCasper` on, over a block tree rooted at genesis. -/
inductive CheckpointState.Reachable (cfg : CasperConfig) : CheckpointState → Prop
  | init {store} : RootedTree store → Reachable cfg ⟨store, newCheckpointCache⟩
  | step {s s'} : Reachable cfg s → CheckpointStep cfg s s' → Reachable cfg s'

/-- The invariant of a run: a rooted tree, and a sound cache over it. -/
def CheckpointState.Inv (cfg : CasperConfig) (s : CheckpointState) : Prop :=
  RootedTree s.store ∧ CacheSound cfg s.store s.cache

section RunLemmas

variable {cfg : CasperConfig}

theorem CheckpointStep.inv {s s' : CheckpointState} (h : CheckpointStep cfg s s')
    (hs : s.Inv cfg) : s'.Inv cfg := by
  obtain ⟨hroot, hsound⟩ := hs
  cases h with
  | parentCheckpointHash hcall =>
    exact ⟨hroot, (parentCheckpointHash_cases hroot hsound hcall).1⟩
  | parentCheckpointHashByPrevHash hcall =>
    exact ⟨hroot, (parentCheckpointHashByPrevHash_cases hroot hsound hcall).1⟩
  | saveBlocks hroot' hext => exact ⟨hroot', hsound.mono hext⟩

theorem CheckpointState.Reachable.inv {s : CheckpointState} (h : s.Reachable cfg) : s.Inv cfg := by
  induction h with
  | init hroot => exact ⟨hroot, Lru.Cache.all_new 1024⟩
  | step _ hstep ih => exact hstep.inv ih

/-- Along every run, every entry of the cache maps a block to its parent checkpoint, and both
calls answer the nearest checkpoint, as they would with an empty cache. -/
theorem checkpointCache_sound {s : CheckpointState} (hs : s.Reachable cfg) :
    CacheSound cfg s.store s.cache ∧
    (∀ prevBlockHash prev fuel, s.store prevBlockHash = some prev → prev.height < fuel →
      ∃ c, IsCheckpointOf cfg s.store prev c ∧
        (∃ cache', parentCheckpointHashByPrevHash cfg s.store fuel prevBlockHash s.cache =
          some (.ok c.hash, cache')) ∧
        ∃ cache',
          parentCheckpointHashByPrevHash cfg s.store fuel prevBlockHash newCheckpointCache =
            some (.ok c.hash, cache')) ∧
    ∀ blockHash block fuel, s.store blockHash = some block → 0 < block.height →
      block.height < fuel →
      ∃ c, IsParentCheckpointOf cfg s.store block c ∧
        (∃ cache', parentCheckpointHash cfg s.store fuel blockHash s.cache =
          some (.ok c.hash, cache')) ∧
        ∃ cache', parentCheckpointHash cfg s.store fuel blockHash newCheckpointCache =
          some (.ok c.hash, cache') := by
  obtain ⟨hroot, hsound⟩ := hs.inv
  have hnew : CacheSound cfg s.store newCheckpointCache := Lru.Cache.all_new 1024
  refine ⟨hsound, fun prevBlockHash prev fuel hprev hfuel => ?_,
    fun blockHash block fuel hblock hpos hfuel => ?_⟩
  · obtain ⟨c, cache', hcall, hc⟩ :=
      parentCheckpointHashByPrevHash_ok hroot fuel hprev hfuel hsound
    obtain ⟨c', cache'', hcall', hc'⟩ :=
      parentCheckpointHashByPrevHash_ok hroot fuel hprev hfuel hnew
    -- the nearest checkpoint is one block, so the cache changes nothing
    have hcc : c = c' := IsNearest.unique hc hc'
    subst hcc
    exact ⟨c, hc, ⟨cache', hcall⟩, cache'', hcall'⟩
  · obtain ⟨c, cache', hcall, hc⟩ :=
      parentCheckpointHash_ok hroot fuel hblock hpos hfuel hsound
    obtain ⟨c', cache'', hcall', hc'⟩ :=
      parentCheckpointHash_ok hroot fuel hblock hpos hfuel hnew
    have hcc : c = c' := hc.unique hc'
    subst hcc
    exact ⟨c, hc, ⟨cache', hcall⟩, cache'', hcall'⟩

end RunLemmas

/-! ## The sample tree -/

/-- A list of headers, each above the header filed under its previous hash and each above
genesis with its parent in the list, is a rooted block tree. -/
theorem rootedTree_storeOf {headers : List BlockHeader}
    (ht : ∀ x ∈ headers, ∀ p ∈ headers, p.hash = x.previousBlockHash →
      x.height = p.height + 1)
    (hparent : ∀ x ∈ headers, 0 < x.height → (storeOf headers x.previousBlockHash).isSome) :
    RootedTree (storeOf headers) where
  toBlockTree := blockTree_storeOf ht
  parent_stored := fun hx hpos =>
    Option.isSome_iff_exists.mp (hparent _ (List.mem_of_find?_eq_some hx) hpos)

theorem checkpointCache_sound_sample :
    CheckpointState.Reachable mainNetCasperConfig
        ⟨storeOf sampleHeaders, newCheckpointCache⟩ ∧
      CacheSound mainNetCasperConfig (storeOf sampleHeaders) newCheckpointCache :=
  have hs : CheckpointState.Reachable mainNetCasperConfig
      ⟨storeOf sampleHeaders, newCheckpointCache⟩ :=
    .init (rootedTree_storeOf (by decide) (by decide))
  ⟨hs, (checkpointCache_sound hs).1⟩

-- block 6 is at height 3, so on the main network its walk stops at height 1, above genesis,
-- and answers genesis without reading it
example : (parentCheckpointHash mainNetCasperConfig (storeOf sampleHeaders) 4 6
    newCheckpointCache).map Prod.fst = some (.ok 1) := rfl

end KuskCore.Protocol
