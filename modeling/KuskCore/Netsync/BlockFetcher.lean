import Mathlib
import KuskCore.Netsync.Storage

/-!
# The block fetcher

`blockFetcher` of `netsync/consensusmgr/block_fetcher.go` holds the blocks peers propose until the
chain is high enough to take them. `add` queues a proposed block when its peer has fewer than
`limit` blocks queued, its height is at most `maxBlockDistance` above the best height and no block
of its hash is queued yet; `blockProcessorLoop` pops queued blocks, pushes back one beyond the next
height, and hands the others to the chain. Beside the queue, `msgSet` files each queued block
under its hash and `msgCounter` counts each peer's queued blocks, the guard against a peer that
floods the node.

Across every order of proposals and pops, and whatever the best height at each call,
`msgSet` and `msgCounter` stay exact (`BlockFetcher.Counted`, `BlockFetcher.reachable_counted`):
no hash is queued twice, `msgSet` holds exactly the queued blocks, `msgCounter` has an entry,
positive, exactly for the peers with blocks queued and that entry is their number, and no peer
ever has more than `msgLimit` blocks queued. `Counted.add` and `Counted.processItem` are the two
step lemmas.

The priority queue `prque` hands out the lowest block first; here a pop may take any queued block,
so the invariant holds for every order of the queue. A block popped and pushed back leaves the
queue as it was. `insert` hands the block to the chain and the peers and leaves the fetcher alone;
the best height is the argument of each call.
-/

namespace KuskCore.Netsync

open Protocol

def maxBlockDistance : Nat := 64

def msgLimit : Int := 128

/-- `blockMsg`: a proposed block and the peer it came from. -/
structure BlockMsg where
  block : Block
  peerID : String
  deriving DecidableEq, Repr

/-- `blockFetcher`, with the items of its priority queue in a list. -/
structure BlockFetcher where
  queue : List BlockMsg
  msgSet : AList fun _ : Nat => BlockMsg
  msgCounter : AList fun _ : String => Int

def newBlockFetcher : BlockFetcher := ⟨[], ∅, ∅⟩

namespace BlockFetcher

/-- `f.msgCounter[peerID]`: zero for a peer without an entry. -/
def counter (f : BlockFetcher) (peerID : String) : Int := (f.msgCounter.lookup peerID).getD 0

/-- `blockFetcher.add`. -/
def add (bestHeight : Nat) (msg : BlockMsg) (limit : Int) (f : BlockFetcher) : BlockFetcher :=
  let count := f.counter msg.peerID + 1
  if count > limit then f
  else if bestHeight > msg.block.blockHeader.height ∨
      msg.block.blockHeader.height - bestHeight > maxBlockDistance then f
  else
    let blockHash := msg.block.blockHeader.hash
    if blockHash ∉ f.msgSet then
      { queue := f.queue ++ [msg]
        msgSet := f.msgSet.insert blockHash msg
        msgCounter := f.msgCounter.insert msg.peerID count }
    else f

/-- One turn of the inner loop of `blockProcessorLoop`, on the block `queue[i]` it pops: a block
beyond the next height goes back, any other leaves the queue, `msgSet` and its peer's count. -/
def processItem (bestHeight i : Nat) (f : BlockFetcher) : BlockFetcher :=
  match f.queue[i]? with
  | none => f
  | some msg =>
    if msg.block.blockHeader.height > bestHeight + 1 then f
    else
      let count := f.counter msg.peerID - 1
      { queue := f.queue.eraseIdx i
        msgSet := f.msgSet.erase msg.block.blockHeader.hash
        msgCounter :=
          if count ≤ 0 then f.msgCounter.erase msg.peerID
          else f.msgCounter.insert msg.peerID count }

end BlockFetcher

/-- What the fetcher's two goroutines do to it: `add` a block from `newBlockCh`, or pop one. -/
inductive FetcherCall where
  | add (bestHeight : Nat) (msg : BlockMsg)
  | processItem (bestHeight i : Nat)

def FetcherCall.step : FetcherCall → BlockFetcher → BlockFetcher
  | .add bestHeight msg, f => f.add bestHeight msg msgLimit
  | .processItem bestHeight i, f => f.processItem bestHeight i

/-- The states a block fetcher reaches from `newBlockFetcher`, by any calls. -/
inductive BlockFetcher.Reachable : BlockFetcher → Prop where
  | init : Reachable newBlockFetcher
  | step {f : BlockFetcher} (call : FetcherCall) : Reachable f → Reachable (call.step f)

namespace BlockFetcher

/-! ## The two steps -/

/-- The hash a queued block is filed under. -/
def hashOf (msg : BlockMsg) : Nat := msg.block.blockHeader.hash

/-- The number of queued blocks from a peer. -/
def queuedFrom (f : BlockFetcher) (peerID : String) : Nat := f.queue.countP (·.peerID = peerID)

/-- What `add` does: nothing, or queue a block whose hash is not queued, counted for its peer
while the peer stays within the limit. -/
theorem add_cases (bestHeight : Nat) (msg : BlockMsg) (limit : Int) (f : BlockFetcher) :
    f.add bestHeight msg limit = f ∨
    (f.counter msg.peerID + 1 ≤ limit ∧ hashOf msg ∉ f.msgSet ∧
      f.add bestHeight msg limit =
        { queue := f.queue ++ [msg]
          msgSet := f.msgSet.insert (hashOf msg) msg
          msgCounter := f.msgCounter.insert msg.peerID (f.counter msg.peerID + 1) }) := by
  unfold add
  by_cases hlimit : f.counter msg.peerID + 1 > limit
  · exact .inl (if_pos hlimit)
  dsimp only
  rw [if_neg hlimit]
  split
  · exact .inl rfl
  split
  · exact .inr ⟨not_lt.mp hlimit, by assumption, rfl⟩
  · exact .inl rfl

/-- What `processItem` does: nothing, or take out the popped block, its hash and one of its
peer's count, deleting the count at zero. -/
theorem processItem_cases (bestHeight i : Nat) (f : BlockFetcher) :
    f.processItem bestHeight i = f ∨
    ∃ msg, f.queue[i]? = some msg ∧
      f.processItem bestHeight i =
        { queue := f.queue.eraseIdx i
          msgSet := f.msgSet.erase (hashOf msg)
          msgCounter :=
            if f.counter msg.peerID - 1 ≤ 0 then f.msgCounter.erase msg.peerID
            else f.msgCounter.insert msg.peerID (f.counter msg.peerID - 1) } := by
  cases hmsg : f.queue[i]? with
  | none => exact .inl (by simp only [processItem, hmsg])
  | some msg =>
    by_cases hbeyond : msg.block.blockHeader.height > bestHeight + 1
    · exact .inl (by simp only [processItem, hmsg, if_pos hbeyond])
    · exact .inr ⟨msg, rfl, by simp only [processItem, hmsg, if_neg hbeyond]; rfl⟩

/-- The block at `i` splits the queue around it, and popping it joins the two parts. -/
theorem eraseIdx_of_getElem? {queue : List BlockMsg} {i : Nat} {msg : BlockMsg}
    (h : queue[i]? = some msg) :
    queue = queue.take i ++ msg :: queue.drop (i + 1) ∧
      queue.eraseIdx i = queue.take i ++ queue.drop (i + 1) := by
  obtain ⟨hi, rfl⟩ := List.getElem?_eq_some_iff.mp h
  refine ⟨?_, List.eraseIdx_eq_take_drop_succ queue i⟩
  rw [← List.drop_eq_getElem_cons hi, List.take_append_drop]

@[simp] theorem counter_mk (queue : List BlockMsg) (msgSet : AList fun _ : Nat => BlockMsg)
    (msgCounter : AList fun _ : String => Int) (p : String) :
    counter ⟨queue, msgSet, msgCounter⟩ p = (msgCounter.lookup p).getD 0 := rfl

@[simp] theorem queuedFrom_mk (queue : List BlockMsg) (msgSet : AList fun _ : Nat => BlockMsg)
    (msgCounter : AList fun _ : String => Int) (p : String) :
    queuedFrom ⟨queue, msgSet, msgCounter⟩ p = queue.countP (·.peerID = p) := rfl

theorem counter_insert (f : BlockFetcher) (peerID p : String) (count : Int) :
    ((f.msgCounter.insert peerID count).lookup p).getD 0 =
      if p = peerID then count else f.counter p := by
  by_cases hp : p = peerID
  · subst hp
    simp [AList.lookup_insert]
  · simp [AList.lookup_insert_ne hp, hp, counter]

theorem counter_erase (f : BlockFetcher) (peerID p : String) :
    ((f.msgCounter.erase peerID).lookup p).getD 0 = if p = peerID then 0 else f.counter p := by
  by_cases hp : p = peerID
  · subst hp
    simp [AList.lookup_erase]
  · simp [AList.lookup_erase_ne hp, hp, counter]

/-! ## The invariant -/

/-- `msgSet` and `msgCounter` are exact: `msgSet` files each queued block under its hash, one
block a hash, and `msgCounter` holds each peer's number of queued blocks, positive, up to
`limit`. -/
structure Counted (limit : Int) (f : BlockFetcher) : Prop where
  hashes_nodup : (f.queue.map hashOf).Nodup
  msgSet_lookup : ∀ h, f.msgSet.lookup h = f.queue.find? (hashOf · = h)
  counter_eq : ∀ p, f.counter p = f.queuedFrom p
  counter_pos : ∀ p c, f.msgCounter.lookup p = some c → 0 < c
  queuedFrom_le : ∀ p, (f.queuedFrom p : Int) ≤ limit

theorem counted_new (limit : Int) (hlimit : 0 ≤ limit) : newBlockFetcher.Counted limit where
  hashes_nodup := List.nodup_nil
  msgSet_lookup h := by simp [newBlockFetcher]
  counter_eq p := by simp [newBlockFetcher, counter, queuedFrom]
  counter_pos p c := by simp [newBlockFetcher]
  queuedFrom_le p := by simpa [newBlockFetcher, queuedFrom] using hlimit

section Steps

variable {limit : Int} {f : BlockFetcher}

/-- A hash `msgSet` lacks is the hash of no queued block. -/
theorem Counted.hashOf_ne (hC : f.Counted limit) {h : Nat} (hh : h ∉ f.msgSet) :
    ∀ m ∈ f.queue, hashOf m ≠ h := by
  have hnone : f.queue.find? (hashOf · = h) = none := by
    rw [← hC.msgSet_lookup]
    exact AList.lookup_eq_none.mpr hh
  simpa using hnone

/-- Queuing a new block keeps the fetcher counted. -/
theorem Counted.enqueue (hC : f.Counted limit) {msg : BlockMsg}
    (hcount : f.counter msg.peerID + 1 ≤ limit) (hnew : hashOf msg ∉ f.msgSet) :
    Counted limit
      { queue := f.queue ++ [msg]
        msgSet := f.msgSet.insert (hashOf msg) msg
        msgCounter := f.msgCounter.insert msg.peerID (f.counter msg.peerID + 1) } := by
  have hne := hC.hashOf_ne hnew
  -- the new block is counted once more for its own peer and for no other
  have hqueued : ∀ p, (f.queue ++ [msg]).countP (·.peerID = p) =
      f.queuedFrom p + if p = msg.peerID then 1 else 0 := by
    intro p
    by_cases hp : p = msg.peerID <;> simp [queuedFrom, hp, eq_comm]
  constructor
  · rw [List.map_append, List.nodup_append]
    refine ⟨hC.hashes_nodup, List.nodup_singleton _, ?_⟩
    simpa using hne
  · intro h
    by_cases hh : h = hashOf msg
    · subst hh
      have hfind : f.queue.find? (hashOf · = hashOf msg) = none :=
        List.find?_eq_none.mpr (by simpa using hne)
      simp [AList.lookup_insert, List.find?_append, hfind]
    · rw [AList.lookup_insert_ne hh, hC.msgSet_lookup, List.find?_append]
      cases f.queue.find? (hashOf · = h) <;> simp [Ne.symm hh]
  · intro p
    rw [counter_mk, queuedFrom_mk, counter_insert, hqueued]
    by_cases hp : p = msg.peerID <;> simp [hp, hC.counter_eq]
  · intro p c hc
    by_cases hp : p = msg.peerID
    · subst hp
      rw [AList.lookup_insert, Option.some_inj] at hc
      have := hC.counter_eq msg.peerID
      omega
    · exact hC.counter_pos p c (by rwa [AList.lookup_insert_ne hp] at hc)
  · intro p
    rw [queuedFrom_mk, hqueued]
    by_cases hp : p = msg.peerID
    · subst hp
      have := hC.counter_eq msg.peerID
      rw [if_pos rfl]
      push_cast
      omega
    · simpa [hp] using hC.queuedFrom_le p

/-- Popping a queued block keeps the fetcher counted. -/
theorem Counted.dequeue (hC : f.Counted limit) {i : Nat} {msg : BlockMsg}
    (hmsg : f.queue[i]? = some msg) :
    Counted limit
      { queue := f.queue.eraseIdx i
        msgSet := f.msgSet.erase (hashOf msg)
        msgCounter :=
          if f.counter msg.peerID - 1 ≤ 0 then f.msgCounter.erase msg.peerID
          else f.msgCounter.insert msg.peerID (f.counter msg.peerID - 1) } := by
  obtain ⟨hsplit, herase⟩ := eraseIdx_of_getElem? hmsg
  set l₁ := f.queue.take i
  set l₂ := f.queue.drop (i + 1)
  have hnd : (msg :: (l₁ ++ l₂)).map hashOf |>.Nodup := by
    have h := hC.hashes_nodup
    rw [hsplit, List.map_append, List.map_cons, List.nodup_middle] at h
    simpa using h
  -- no other queued block has the popped block's hash
  have hne : ∀ m ∈ l₁ ++ l₂, hashOf m ≠ hashOf msg := by
    intro m hm heq
    exact (List.nodup_cons.mp hnd).1 (List.mem_map.mpr ⟨m, hm, heq⟩)
  have hqueued : ∀ p, f.queuedFrom p = (l₁ ++ l₂).countP (·.peerID = p) +
      if msg.peerID = p then 1 else 0 := by
    intro p
    rw [queuedFrom, hsplit]
    simp [List.countP_append, List.countP_cons]
    omega
  constructor
  · rw [herase]
    exact (List.nodup_cons.mp hnd).2
  · intro h
    rw [herase]
    by_cases hh : h = hashOf msg
    · subst hh
      have hfind : (l₁ ++ l₂).find? (hashOf · = hashOf msg) = none :=
        List.find?_eq_none.mpr (by simpa using hne)
      simp [AList.lookup_erase, hfind]
    · rw [AList.lookup_erase_ne hh, hC.msgSet_lookup, hsplit]
      simp [List.find?_append, Ne.symm hh]
  · intro p
    rw [counter_mk, queuedFrom_mk, herase]
    have hp : f.counter p = ((l₁ ++ l₂).countP (·.peerID = p) : Int) +
        if msg.peerID = p then 1 else 0 := by
      rw [hC.counter_eq, hqueued]
      push_cast
      rfl
    by_cases hpm : p = msg.peerID
    · subst hpm
      rw [if_pos rfl] at hp
      split
      · rw [counter_erase, if_pos rfl]
        omega
      · rw [counter_insert, if_pos rfl]
        omega
    · rw [if_neg (Ne.symm hpm)] at hp
      split
      · rw [counter_erase, if_neg hpm]
        omega
      · rw [counter_insert, if_neg hpm]
        omega
  · intro p c hc
    split at hc
    · by_cases hp : p = msg.peerID
      · subst hp
        simp [AList.lookup_erase] at hc
      · exact hC.counter_pos p c (by rwa [AList.lookup_erase_ne hp] at hc)
    · by_cases hp : p = msg.peerID
      · subst hp
        rw [AList.lookup_insert, Option.some_inj] at hc
        omega
      · exact hC.counter_pos p c (by rwa [AList.lookup_insert_ne hp] at hc)
  · intro p
    rw [queuedFrom_mk, herase]
    have hle := hC.queuedFrom_le p
    rw [hqueued p] at hle
    push_cast at hle
    split at hle <;> omega

theorem Counted.add (hC : f.Counted limit) (bestHeight : Nat) (msg : BlockMsg) :
    (f.add bestHeight msg limit).Counted limit := by
  rcases add_cases bestHeight msg limit f with h | ⟨hcount, hnew, h⟩
  · rwa [h]
  · rw [h]
    exact hC.enqueue hcount hnew

theorem Counted.processItem (hC : f.Counted limit) (bestHeight i : Nat) :
    (f.processItem bestHeight i).Counted limit := by
  rcases processItem_cases bestHeight i f with h | ⟨msg, hmsg, h⟩
  · rwa [h]
  · rw [h]
    exact hC.dequeue hmsg

end Steps

/-- Over every run of the fetcher, with blocks proposed, pushed back and processed in any order
and at any best heights, no block is queued twice, `msgSet` holds exactly the queued blocks under
their hashes, `msgCounter` has a positive entry exactly for the peers with blocks queued, their
number, and no peer has more than `msgLimit` blocks queued. -/
theorem reachable_counted {f : BlockFetcher} (h : f.Reachable) : f.Counted msgLimit := by
  induction h with
  | init => exact counted_new msgLimit (by decide)
  | step call _ ih =>
    cases call with
    | add bestHeight msg => exact ih.add bestHeight msg
    | processItem bestHeight i => exact ih.processItem bestHeight i

/-- A block proposed at the best height. -/
def sampleMsg : BlockMsg := ⟨⟨⟨7, 100, 6⟩⟩, "peer"⟩

/-- The fetcher after `sampleMsg` is queued and popped again. -/
def sampleRun : BlockFetcher :=
  (FetcherCall.processItem 100 0).step ((FetcherCall.add 100 sampleMsg).step newBlockFetcher)

theorem reachable_counted_sample : sampleRun.Counted msgLimit :=
  reachable_counted (.step _ (.step _ .init))

end BlockFetcher

end KuskCore.Netsync
