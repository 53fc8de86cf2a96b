import KuskCore.Protocol.Reorganize

/-!
# Fast-sync tasks

`fastSync.createFetchBlocksTasks` of `netsync/chainmgr/fast_sync.go`. It asks the peers high
enough for a skeleton of headers toward the stop block, takes the main sync peer's skeleton `M`,
adds the sync peers that block downloads will use, and cuts `M` into the tasks `(M[i], M[i+1])`.

The peers meant to be trusted are those whose skeleton agrees with `M`: the same length and the
same hash at every index (`Agrees`). The hash comparison sits in an inner loop whose `continue`
only moves on to the next index, so a mismatch is logged and the peer is added all the same:
every peer with a skeleton of `M`'s length becomes a sync peer (`createFetchBlocksTasks_spec`).

The peers and their skeletons are inputs here: what `GetPeersByHeight` and `parallelFetchHeaders`
returned. The skeleton map is a list of entries in the order Go happens to range over it.
-/

namespace KuskCore.Netsync

open Protocol

/-- The errors of `createFetchBlocksTasks`. -/
inductive FastSyncError where
  /-- "can't find sync peer" -/
  | noSyncPeer
  /-- "No skeleton found" -/
  | noSkeletonFound
  /-- "No main skeleton found" -/
  | noMainSkeleton
  /-- "fast sync skeleton size wrong" -/
  | skeletonSize
  deriving DecidableEq, Repr

/-- `fetchBlocksWork`. -/
structure FetchBlocksWork where
  startHeader : BlockHeader
  stopHeader : BlockHeader
  deriving DecidableEq, Repr

/-- What the peer loop does, in order: its two warnings and its calls of `addSyncPeer`. -/
inductive SyncEvent where
  /-- "different skeleton length" -/
  | differentLength (peerID : String)
  /-- "different skeleton hash", at one index -/
  | differentHash (peerID : String) (index : Nat)
  | addSyncPeer (peerID : String)
  deriving DecidableEq, Repr

/-- The peer a call of `addSyncPeer` adds. -/
def SyncEvent.syncPeer? : SyncEvent → Option String
  | .addSyncPeer peerID => some peerID
  | _ => none

def minSizeOfSyncSkeleton : Nat := 2

def maxSizeOfSyncSkeleton : Nat := 11

/-- The inner loop over one skeleton: a warning at each index whose hash differs from the main
skeleton's. Its `continue` moves on to the next index and nothing else. -/
def hashMismatches (peerID : String) (mainSkeleton : List BlockHeader) :
    Nat → List BlockHeader → List SyncEvent
  | _, [] => []
  | i, header :: skeleton =>
    (if some header.hash ≠ mainSkeleton[i]?.map BlockHeader.hash then [.differentHash peerID i]
      else []) ++ hashMismatches peerID mainSkeleton (i + 1) skeleton

/-- The peer loop over the other peers' skeletons. -/
def peerLoop (mainSkeleton : List BlockHeader) : List (String × List BlockHeader) → List SyncEvent
  | [] => []
  | (peerID, skeleton) :: skeletonMap =>
    if skeleton.length ≠ mainSkeleton.length then
      .differentLength peerID :: peerLoop mainSkeleton skeletonMap
    else
      hashMismatches peerID mainSkeleton 0 skeleton ++
        .addSyncPeer peerID :: peerLoop mainSkeleton skeletonMap

/-- The task loop: `(M[i], M[i+1])` while `i < len(M) - 1` and `n` passes are left. -/
def taskLoop : Nat → List BlockHeader → List FetchBlocksWork
  | 0, _ => []
  | n + 1, startHeader :: stopHeader :: mainSkeleton =>
    ⟨startHeader, stopHeader⟩ :: taskLoop n (stopHeader :: mainSkeleton)
  | _ + 1, _ => []

/-- `fastSync.createFetchBlocksTasks`, from the peers high enough and the skeletons they sent: the
events of its peer loop, after the main peer's `addSyncPeer`, and the tasks. -/
def createFetchBlocksTasks (peers : List String) (skeletonMap : List (String × List BlockHeader))
    (mainSyncPeer : String) : Except FastSyncError (List SyncEvent × List FetchBlocksWork) :=
  if peers.length = 0 then .error .noSyncPeer
  else if skeletonMap.length = 0 then .error .noSkeletonFound
  else
    match skeletonMap.lookup mainSyncPeer with
    | none => .error .noMainSkeleton
    | some mainSkeleton =>
      if mainSkeleton.length < minSizeOfSyncSkeleton then .error .skeletonSize
      else
        -- `delete(skeletonMap, mainSyncPeer)` before the peer loop
        .ok (.addSyncPeer mainSyncPeer ::
            peerLoop mainSkeleton (skeletonMap.filter fun e => e.1 ≠ mainSyncPeer),
          taskLoop (maxSizeOfSyncSkeleton - 1) mainSkeleton)

/-- The skeleton agrees with the main one: the same length and the same hash at every index. -/
def Agrees (mainSkeleton skeleton : List BlockHeader) : Prop :=
  skeleton.map BlockHeader.hash = mainSkeleton.map BlockHeader.hash

instance (mainSkeleton skeleton : List BlockHeader) : Decidable (Agrees mainSkeleton skeleton) :=
  inferInstanceAs (Decidable (_ = _))

theorem Agrees.length_eq {mainSkeleton skeleton : List BlockHeader}
    (h : Agrees mainSkeleton skeleton) : skeleton.length = mainSkeleton.length := by
  simpa using congrArg List.length h

/-! ## The loops -/

theorem hashMismatches_syncPeers (peerID : String) (mainSkeleton : List BlockHeader) :
    ∀ i skeleton, (hashMismatches peerID mainSkeleton i skeleton).filterMap SyncEvent.syncPeer? = []
  | _, [] => rfl
  | i, header :: skeleton => by
    rw [hashMismatches, List.filterMap_append, hashMismatches_syncPeers peerID mainSkeleton (i + 1)]
    split <;> rfl

/-- The peer loop adds every peer whose skeleton has the main one's length, whatever its hashes. -/
theorem peerLoop_syncPeers (mainSkeleton : List BlockHeader) :
    ∀ skeletonMap, (peerLoop mainSkeleton skeletonMap).filterMap SyncEvent.syncPeer? =
      (skeletonMap.filter fun e => e.2.length = mainSkeleton.length).map Prod.fst
  | [] => rfl
  | (peerID, skeleton) :: skeletonMap => by
    by_cases hlen : skeleton.length = mainSkeleton.length
    · rw [peerLoop, if_neg (by simpa using hlen), List.filterMap_append,
        hashMismatches_syncPeers, List.filterMap_cons, List.filter_cons_of_pos (by simpa using hlen),
        peerLoop_syncPeers mainSkeleton skeletonMap]
      rfl
    · rw [peerLoop, if_pos hlen, List.filterMap_cons, List.filter_cons_of_neg (by simpa using hlen),
        peerLoop_syncPeers mainSkeleton skeletonMap]
      rfl

theorem taskLoop_length : ∀ n mainSkeleton,
    (taskLoop n mainSkeleton).length = min (mainSkeleton.length - 1) n
  | 0, _ => by simp [taskLoop]
  | _ + 1, [] => rfl
  | _ + 1, [_] => rfl
  | n + 1, _ :: stopHeader :: mainSkeleton => by
    rw [taskLoop, List.length_cons, taskLoop_length n (stopHeader :: mainSkeleton)]
    simp only [List.length_cons]
    omega

/-- The task at index `i` is `(M[i], M[i+1])`. -/
theorem taskLoop_getElem? : ∀ n mainSkeleton i, i < (taskLoop n mainSkeleton).length →
    (taskLoop n mainSkeleton)[i]?.map FetchBlocksWork.startHeader = mainSkeleton[i]? ∧
      (taskLoop n mainSkeleton)[i]?.map FetchBlocksWork.stopHeader = mainSkeleton[i + 1]?
  | 0, _, _, h => absurd h (by simp [taskLoop])
  | _ + 1, [], _, h => absurd h (by simp [taskLoop])
  | _ + 1, [_], _, h => absurd h (by simp [taskLoop])
  | n + 1, startHeader :: stopHeader :: mainSkeleton, i, h => by
    cases i with
    | zero => exact ⟨rfl, rfl⟩
    | succ i =>
      rw [taskLoop, List.length_cons] at h
      rw [taskLoop, List.getElem?_cons_succ, List.getElem?_cons_succ, List.getElem?_cons_succ]
      exact taskLoop_getElem? n (stopHeader :: mainSkeleton) i (by omega)

/-! ## The tasks and the sync peers -/

/-- For a main skeleton `M` of at least two headers among skeletons fetched from the peers
asked: the sync peers added are the main peer and every other peer whose skeleton has `M`'s
length, so among them every peer that agrees with `M`; and the tasks are `(M[i], M[i+1])` for
`i < min (len(M) - 1) (maxSizeOfSyncSkeleton - 1)`. -/
theorem createFetchBlocksTasks_spec {peers : List String}
    {skeletonMap : List (String × List BlockHeader)} {mainSyncPeer : String}
    {mainSkeleton : List BlockHeader} (hfetched : ∀ e ∈ skeletonMap, e.1 ∈ peers)
    (hmain : skeletonMap.lookup mainSyncPeer = some mainSkeleton)
    (hsize : 2 ≤ mainSkeleton.length) :
    ∃ events tasks, createFetchBlocksTasks peers skeletonMap mainSyncPeer = .ok (events, tasks) ∧
      (∀ peerID, peerID ∈ events.filterMap SyncEvent.syncPeer? ↔
        peerID = mainSyncPeer ∨ ∃ skeleton, (peerID, skeleton) ∈ skeletonMap ∧
          skeleton.length = mainSkeleton.length) ∧
      (∀ peerID skeleton, (peerID, skeleton) ∈ skeletonMap → Agrees mainSkeleton skeleton →
        peerID ∈ events.filterMap SyncEvent.syncPeer?) ∧
      tasks.length = min (mainSkeleton.length - 1) (maxSizeOfSyncSkeleton - 1) ∧
      ∀ i < tasks.length, tasks[i]?.map FetchBlocksWork.startHeader = mainSkeleton[i]? ∧
        tasks[i]?.map FetchBlocksWork.stopHeader = mainSkeleton[i + 1]? := by
  have hne : skeletonMap ≠ [] := by
    rintro rfl
    cases hmain
  obtain ⟨e, he⟩ := List.exists_mem_of_ne_nil _ hne
  have hpeers : peers.length ≠ 0 := by
    have := List.length_pos_of_mem (hfetched e he)
    omega
  have hrun : createFetchBlocksTasks peers skeletonMap mainSyncPeer =
      .ok (.addSyncPeer mainSyncPeer ::
          peerLoop mainSkeleton (skeletonMap.filter fun e => e.1 ≠ mainSyncPeer),
        taskLoop (maxSizeOfSyncSkeleton - 1) mainSkeleton) := by
    rw [createFetchBlocksTasks, if_neg hpeers, if_neg (by simpa using hne), hmain]
    dsimp only
    rw [if_neg (by unfold minSizeOfSyncSkeleton; omega)]
  -- the sync peers added, as a membership statement
  have hadded : ∀ peerID, peerID ∈ (SyncEvent.addSyncPeer mainSyncPeer ::
      peerLoop mainSkeleton (skeletonMap.filter fun e => e.1 ≠ mainSyncPeer)).filterMap
        SyncEvent.syncPeer? ↔
      peerID = mainSyncPeer ∨ ∃ skeleton, (peerID, skeleton) ∈ skeletonMap ∧
        skeleton.length = mainSkeleton.length := by
    intro peerID
    rw [List.filterMap_cons, show SyncEvent.syncPeer? (.addSyncPeer mainSyncPeer) = some mainSyncPeer
      from rfl, peerLoop_syncPeers, List.filter_filter]
    simp only [List.mem_cons, List.mem_map, List.mem_filter, Bool.and_eq_true, decide_eq_true_eq]
    constructor
    · rintro (rfl | ⟨⟨p, s⟩, ⟨hmem, hlen, -⟩, rfl⟩)
      · exact .inl rfl
      · exact .inr ⟨s, hmem, hlen⟩
    · rintro (rfl | ⟨s, hmem, hlen⟩)
      · exact .inl rfl
      · by_cases hp : peerID = mainSyncPeer
        · exact .inl hp
        · exact .inr ⟨(peerID, s), ⟨hmem, hlen, hp⟩, rfl⟩
  refine ⟨_, _, hrun, hadded, fun peerID skeleton hmem hagree => ?_,
    taskLoop_length _ mainSkeleton, taskLoop_getElem? _ mainSkeleton⟩
  exact (hadded peerID).mpr (.inr ⟨skeleton, hmem, hagree.length_eq⟩)

/-- Three headers, hashes `200` to `202`. -/
def sampleSkeleton : List BlockHeader := [⟨200, 0, 0⟩, ⟨201, 64, 200⟩, ⟨202, 128, 201⟩]

theorem createFetchBlocksTasks_spec_sample :
    (∀ e ∈ [("a", sampleSkeleton)], e.1 ∈ ["a"]) ∧
      [("a", sampleSkeleton)].lookup "a" = some sampleSkeleton ∧ 2 ≤ sampleSkeleton.length ∧
      ∃ events tasks, createFetchBlocksTasks ["a"] [("a", sampleSkeleton)] "a" = .ok (events, tasks) ∧
        (∀ peerID, peerID ∈ events.filterMap SyncEvent.syncPeer? ↔
          peerID = "a" ∨ ∃ skeleton, (peerID, skeleton) ∈ [("a", sampleSkeleton)] ∧
            skeleton.length = sampleSkeleton.length) ∧
        (∀ peerID skeleton, (peerID, skeleton) ∈ [("a", sampleSkeleton)] →
          Agrees sampleSkeleton skeleton → peerID ∈ events.filterMap SyncEvent.syncPeer?) ∧
        tasks.length = min (sampleSkeleton.length - 1) (maxSizeOfSyncSkeleton - 1) ∧
        ∀ i < tasks.length, tasks[i]?.map FetchBlocksWork.startHeader = sampleSkeleton[i]? ∧
          tasks[i]?.map FetchBlocksWork.stopHeader = sampleSkeleton[i + 1]? :=
  ⟨by decide, rfl, by decide, createFetchBlocksTasks_spec (by decide) rfl (by decide)⟩

/-- Peer `b` sent a skeleton of the main length whose middle header differs: Go logs the
mismatch and adds `b` as a sync peer. -/
theorem mismatchedPeer_counterexample :
    createFetchBlocksTasks ["a", "b"]
        [("a", sampleSkeleton), ("b", [⟨200, 0, 0⟩, ⟨999, 64, 200⟩, ⟨202, 128, 201⟩])] "a" =
      .ok ([.addSyncPeer "a", .differentHash "b" 1, .addSyncPeer "b"],
        [⟨⟨200, 0, 0⟩, ⟨201, 64, 200⟩⟩, ⟨⟨201, 64, 200⟩, ⟨202, 128, 201⟩⟩]) ∧
      ¬ Agrees sampleSkeleton [⟨200, 0, 0⟩, ⟨999, 64, 200⟩, ⟨202, 128, 201⟩] := by
  decide

end KuskCore.Netsync
