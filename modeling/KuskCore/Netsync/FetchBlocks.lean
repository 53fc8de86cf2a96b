import KuskCore.GoInt
import KuskCore.Netsync.FastSync
import KuskCore.Netsync.Storage

/-!
# Fetching a block range

The inner loop of `msgFetcher.fetchBlocksProcess` in `netsync/chainmgr/msg_fetcher.go`. A worker
holds a work `(startHeader, stopHeader)` and a peer. It asks the peer for the blocks from the start
on (`fetchBlocks`: `requireBlocks`, then `verifyBlocksMsg`) and writes them to the storage. It is
done once the last block reaches the height below the stop, and asks again from the last block
otherwise.

`verifyBlocksMsg` accepts any non-empty hash-linked list that starts at the start block and is not
longer than the range. So a pass that is not done moves the start to the last block of the answer.
For blocks one height above the block they link to, that moves the start up by the answer's length
less one. Answers of two blocks or more finish the work within `stop - start` passes. A peer that
answers with the start block alone keeps the worker asking from the same start forever
(`fetchLoop_progress`).

The peer's answers are a parameter: `requireBlocks` gives, for each request, the blocks that came
back or the error of the request.
-/

namespace KuskCore.Netsync

open GoInt Protocol

/-- The errors of a fetch. -/
inductive FetchError where
  /-- `errPeerDropped` -/
  | peerDropped
  /-- `errSendMsg` -/
  | sendMsg
  /-- `errRequestBlocksTimeout` -/
  | requestBlocksTimeout
  /-- "null blocks msg" -/
  | nullBlocks
  /-- "exceed length blocks msg" -/
  | exceedLength
  /-- "get mismatch blocks msg" -/
  | mismatch
  /-- "get discontinuous blocks msg" -/
  | discontinuous
  deriving DecidableEq, Repr

/-- The continuity loop of `verifyBlocksMsg`: each block's hash is the next one's previous hash. -/
def continuous : List Block → Bool
  | b :: b' :: blocks =>
    b.blockHeader.hash == b'.blockHeader.previousBlockHash && continuous (b' :: blocks)
  | _ => true

/-- `msgFetcher.verifyBlocksMsg`. -/
def verifyBlocksMsg (blocks : List Block) (startHeader stopHeader : BlockHeader) :
    Except FetchError Unit :=
  if blocks.length = 0 then .error .nullBlocks
  else if blocks.length > uint64 (subUint64 stopHeader.height startHeader.height + 1) then
    .error .exceedLength
  else if blocks.head?.map (·.blockHeader.hash) ≠ some startHeader.hash then .error .mismatch
  else if continuous blocks = false then .error .discontinuous
  else .ok ()

/-- `msgFetcher.fetchBlocks`, from what `requireBlocks` got. -/
def fetchBlocks (work : FetchBlocksWork) (answer : Except FetchError (List Block)) :
    Except FetchError (List Block) :=
  match answer with
  | .error err => .error err
  | .ok blocks =>
    match verifyBlocksMsg blocks work.startHeader work.stopHeader with
    | .error err => .error err
    | .ok () => .ok blocks

/-- How the inner loop of `fetchBlocksProcess` ends. -/
inductive FetchEnd where
  /-- The fetch failed: `break`, to wait for a peer again. -/
  | fetchFailed (err : FetchError)
  /-- `writeBlocks` failed: the worker returns the error. -/
  | writeFailed (err : StorageError)
  /-- The work is complete: the worker returns nil. -/
  | done
  /-- The fuel ran out with the loop still going. -/
  | pending
  deriving DecidableEq, Repr

section Loop

variable (marshalText : Block → Option (List UInt8)) (peerID : String)
  (requireBlocks : FetchBlocksWork → Except FetchError (List Block))

/-- The inner loop of `fetchBlocksProcess`, for `fuel` passes. -/
def fetchLoop : Nat → FetchBlocksWork → Storage → FetchEnd × FetchBlocksWork × Storage
  | 0, work, s => (.pending, work, s)
  | fuel + 1, work, s =>
    match fetchBlocks work (requireBlocks work) with
    | .error err => (.fetchFailed err, work, s)
    | .ok blocks =>
      match (writeBlocks marshalText peerID blocks).run s with
      | .error err s' => (.writeFailed err, work, s')
      | .ok _ s' =>
        match blocks.getLast? with
        -- `verifyBlocksMsg` has rejected an empty answer
        | none => (.done, work, s')
        | some last =>
          if last.blockHeader.height ≥ subUint64 work.stopHeader.height 1 then (.done, work, s')
          else fetchLoop fuel { work with startHeader := last.blockHeader } s'

end Loop

/-- Each block is one height above the block before. -/
def StepsUp : List Block → Prop
  | b :: b' :: blocks => b'.blockHeader.height = b.blockHeader.height + 1 ∧ StepsUp (b' :: blocks)
  | _ => True

/-- An answer of chain blocks: it starts at the start header and climbs one height a block. -/
def Climbs (startHeader : BlockHeader) (blocks : List Block) : Prop :=
  blocks.head?.map Block.blockHeader = some startHeader ∧ StepsUp blocks

theorem StepsUp.getLast? : ∀ {b : Block} {blocks : List Block}, StepsUp (b :: blocks) →
    (b :: blocks).getLast?.map (·.blockHeader.height) = some (b.blockHeader.height + blocks.length)
  | _, [], _ => rfl
  | b, b' :: blocks, ⟨hb, h⟩ => by
    rw [List.getLast?_cons_cons, StepsUp.getLast? h, hb, List.length_cons]
    simp only [Option.some.injEq]
    omega

/-- The height an answer of chain blocks ends at. -/
theorem Climbs.last_height {startHeader : BlockHeader} {blocks : List Block}
    (h : Climbs startHeader blocks) :
    ∃ last, blocks.getLast? = some last ∧
      last.blockHeader.height = startHeader.height + (blocks.length - 1) := by
  obtain ⟨hhead, hsteps⟩ := h
  cases blocks with
  | nil => cases hhead
  | cons b blocks =>
    have hb : b.blockHeader = startHeader := Option.some.inj hhead
    have hlast := StepsUp.getLast? hsteps
    cases hl : (b :: blocks).getLast? with
    | none => rw [hl] at hlast; cases hlast
    | some last =>
      rw [hl, Option.map_some, Option.some.injEq, hb] at hlast
      exact ⟨last, rfl, by rw [hlast, List.length_cons]; omega⟩

/-! ## One pass -/

section Pass

variable {marshalText : Block → Option (List UInt8)} {peerID : String}
  {requireBlocks : FetchBlocksWork → Except FetchError (List Block)}

theorem verifyBlocksMsg_ne_nil {blocks : List Block} {startHeader stopHeader : BlockHeader}
    (h : verifyBlocksMsg blocks startHeader stopHeader = .ok ()) : blocks ≠ [] := by
  rintro rfl
  cases h

/-- A pass with an accepted answer that is written: it is done, or it asks again from the
answer's last block. -/
theorem fetchLoop_succ_of_accepted (fuel : Nat) {work : FetchBlocksWork} {s s' : Storage}
    {blocks : List Block} (hanswer : requireBlocks work = .ok blocks)
    (hverify : verifyBlocksMsg blocks work.startHeader work.stopHeader = .ok ())
    (hwrite : (writeBlocks marshalText peerID blocks).run s = .ok () s') :
    ∃ last, blocks.getLast? = some last ∧
      fetchLoop marshalText peerID requireBlocks (fuel + 1) work s =
        if last.blockHeader.height ≥ subUint64 work.stopHeader.height 1 then (.done, work, s')
        else fetchLoop marshalText peerID requireBlocks fuel
          { work with startHeader := last.blockHeader } s' := by
  obtain ⟨last, hlast⟩ := List.getLast?_isSome.mpr (verifyBlocksMsg_ne_nil hverify) |>
    Option.isSome_iff_exists.mp
  refine ⟨last, hlast, ?_⟩
  have hfetch : fetchBlocks work (requireBlocks work) = .ok blocks := by
    simp only [fetchBlocks, hanswer, hverify]
  rw [fetchLoop, hfetch]
  dsimp only
  rw [hwrite]
  dsimp only
  rw [hlast]

/-- The answer holding the start block alone is accepted whenever the range holds more than it. -/
theorem verifyBlocksMsg_single {startHeader stopHeader : BlockHeader}
    (hlt : startHeader.height < stopHeader.height) (hstop : stopHeader.height < 2 ^ 64 - 1) :
    verifyBlocksMsg [⟨startHeader⟩] startHeader stopHeader = .ok () := by
  have hrange : uint64 (subUint64 stopHeader.height startHeader.height + 1) =
      stopHeader.height - startHeader.height + 1 := by
    rw [subUint64_of_le (by omega) (by omega), uint64_of_lt (by omega)]
  unfold verifyBlocksMsg
  rw [hrange, if_neg (by simp), if_neg (by simp only [List.length_singleton]; omega)]
  simp [continuous]

end Pass

/-! ## Whole runs -/

/-- Progress of the inner loop of `fetchBlocksProcess` toward a stop header below `2 ^ 64 - 1`,
with blocks that all marshal. A pass with an accepted answer of chain blocks is done, or asks
again from a start its length less one higher. If every request gets two chain blocks or more,
the work is done within `stop - start` passes. If a request from a start more than one below the
stop gets the start block alone, the worker asks from that start again at every pass, whatever
the fuel. -/
theorem fetchLoop_progress {marshalText : Block → Option (List UInt8)} {peerID : String}
    {requireBlocks : FetchBlocksWork → Except FetchError (List Block)} {stopHeader : BlockHeader}
    (hstop : stopHeader.height < 2 ^ 64 - 1) (hmarshal : ∀ b, (marshalText b).isSome) :
    (∀ fuel startHeader s blocks, startHeader.height < stopHeader.height →
      requireBlocks ⟨startHeader, stopHeader⟩ = .ok blocks →
      verifyBlocksMsg blocks startHeader stopHeader = .ok () → Climbs startHeader blocks →
      ∃ s', fetchLoop marshalText peerID requireBlocks (fuel + 1) ⟨startHeader, stopHeader⟩ s =
          (.done, ⟨startHeader, stopHeader⟩, s') ∨
        ∃ last : BlockHeader, last.height = startHeader.height + (blocks.length - 1) ∧
          fetchLoop marshalText peerID requireBlocks (fuel + 1) ⟨startHeader, stopHeader⟩ s =
            fetchLoop marshalText peerID requireBlocks fuel ⟨last, stopHeader⟩ s') ∧
    ((∀ startHeader, startHeader.height < stopHeader.height → ∃ blocks,
        requireBlocks ⟨startHeader, stopHeader⟩ = .ok blocks ∧
        verifyBlocksMsg blocks startHeader stopHeader = .ok () ∧ Climbs startHeader blocks ∧
        2 ≤ blocks.length) →
      ∀ fuel startHeader s, startHeader.height < stopHeader.height →
        stopHeader.height - startHeader.height ≤ fuel →
        (fetchLoop marshalText peerID requireBlocks fuel ⟨startHeader, stopHeader⟩ s).1 = .done) ∧
    (∀ startHeader, startHeader.height + 1 < stopHeader.height →
      requireBlocks ⟨startHeader, stopHeader⟩ = .ok [⟨startHeader⟩] →
      ∀ fuel s, ∃ s', fetchLoop marshalText peerID requireBlocks fuel ⟨startHeader, stopHeader⟩ s =
        (.pending, ⟨startHeader, stopHeader⟩, s')) := by
  have hwrites : ∀ blocks s, ∃ s', (writeBlocks marshalText peerID blocks).run s = .ok () s' :=
    fun blocks s => writeBlocks_ok peerID s fun b _ => hmarshal b
  -- `stop - 1` in `uint64` is the height below the stop
  have hbelow : 1 ≤ stopHeader.height → subUint64 stopHeader.height 1 = stopHeader.height - 1 :=
    fun h => subUint64_of_le h (by omega)
  -- one pass, for an answer of chain blocks
  have hpass : ∀ fuel startHeader s blocks, startHeader.height < stopHeader.height →
      requireBlocks ⟨startHeader, stopHeader⟩ = .ok blocks →
      verifyBlocksMsg blocks startHeader stopHeader = .ok () → Climbs startHeader blocks →
      ∃ s', fetchLoop marshalText peerID requireBlocks (fuel + 1) ⟨startHeader, stopHeader⟩ s =
          (.done, ⟨startHeader, stopHeader⟩, s') ∨
        ∃ last : BlockHeader, last.height = startHeader.height + (blocks.length - 1) ∧
          last.height < stopHeader.height - 1 ∧
          fetchLoop marshalText peerID requireBlocks (fuel + 1) ⟨startHeader, stopHeader⟩ s =
            fetchLoop marshalText peerID requireBlocks fuel ⟨last, stopHeader⟩ s' := by
    intro fuel startHeader s blocks hlt hanswer hverify hclimbs
    obtain ⟨s', hwrite⟩ := hwrites blocks s
    obtain ⟨last, hlast, hrun⟩ := fetchLoop_succ_of_accepted fuel hanswer hverify hwrite
    obtain ⟨last', hlast', hheight⟩ := hclimbs.last_height
    rw [hlast, Option.some.injEq] at hlast'
    subst hlast'
    refine ⟨s', ?_⟩
    by_cases hdone : last.blockHeader.height ≥ subUint64 stopHeader.height 1
    · exact .inl (by rw [hrun, if_pos hdone])
    · refine .inr ⟨last.blockHeader, hheight, ?_, by rw [hrun, if_neg hdone]⟩
      rw [hbelow (by omega)] at hdone
      omega
  refine ⟨fun fuel startHeader s blocks hlt hanswer hverify hclimbs => ?_, ?_, ?_⟩
  · obtain ⟨s', hdone | ⟨last, hheight, -, hrun⟩⟩ :=
      hpass fuel startHeader s blocks hlt hanswer hverify hclimbs
    · exact ⟨s', .inl hdone⟩
    · exact ⟨s', .inr ⟨last, hheight, hrun⟩⟩
  · -- the distance to the stop falls by at least one a pass
    intro hgood fuel
    induction fuel with
    | zero =>
      intro startHeader s hlt hfuel
      omega
    | succ fuel ih =>
      intro startHeader s hlt hfuel
      obtain ⟨blocks, hanswer, hverify, hclimbs, hlen⟩ := hgood startHeader hlt
      obtain ⟨s', hdone | ⟨last, hheight, hnext, hrun⟩⟩ :=
        hpass fuel startHeader s blocks hlt hanswer hverify hclimbs
      · rw [hdone]
      · rw [hrun]
        exact ih last s' (by omega) (by omega)
  · intro startHeader hlt hanswer fuel
    induction fuel with
    | zero => exact fun s => ⟨s, rfl⟩
    | succ fuel ih =>
      intro s
      have hverify : verifyBlocksMsg [⟨startHeader⟩] startHeader stopHeader = .ok () :=
        verifyBlocksMsg_single (by omega) hstop
      obtain ⟨s', hwrite⟩ := hwrites [⟨startHeader⟩] s
      obtain ⟨last, hlast, hrun⟩ := fetchLoop_succ_of_accepted fuel hanswer hverify hwrite
      rw [List.getLast?_singleton, Option.some.injEq] at hlast
      subst hlast
      have hstay : ¬ startHeader.height ≥ subUint64 stopHeader.height 1 := by
        rw [hbelow (by omega)]
        omega
      rw [hrun, if_neg hstay]
      exact ih s'

/-- Blocks of ten bytes. -/
def sampleMarshal : Block → Option (List UInt8) := fun _ => some (List.replicate 10 0)

/-- A peer that answers every request with the start block alone. -/
def singleBlockPeer : FetchBlocksWork → Except FetchError (List Block) :=
  fun work => .ok [⟨work.startHeader⟩]

/-- A work from height 0 to height 10. -/
def sampleWork : FetchBlocksWork := ⟨⟨300, 0, 0⟩, ⟨310, 10, 309⟩⟩

theorem fetchLoop_progress_sample :
    sampleWork.stopHeader.height < 2 ^ 64 - 1 ∧ (∀ b, (sampleMarshal b).isSome) ∧
    (∀ fuel startHeader s blocks, startHeader.height < sampleWork.stopHeader.height →
      singleBlockPeer ⟨startHeader, sampleWork.stopHeader⟩ = .ok blocks →
      verifyBlocksMsg blocks startHeader sampleWork.stopHeader = .ok () → Climbs startHeader blocks →
      ∃ s', fetchLoop sampleMarshal "peer" singleBlockPeer (fuel + 1)
            ⟨startHeader, sampleWork.stopHeader⟩ s =
          (.done, ⟨startHeader, sampleWork.stopHeader⟩, s') ∨
        ∃ last : BlockHeader, last.height = startHeader.height + (blocks.length - 1) ∧
          fetchLoop sampleMarshal "peer" singleBlockPeer (fuel + 1)
              ⟨startHeader, sampleWork.stopHeader⟩ s =
            fetchLoop sampleMarshal "peer" singleBlockPeer fuel ⟨last, sampleWork.stopHeader⟩ s') ∧
    ((∀ startHeader, startHeader.height < sampleWork.stopHeader.height → ∃ blocks,
        singleBlockPeer ⟨startHeader, sampleWork.stopHeader⟩ = .ok blocks ∧
        verifyBlocksMsg blocks startHeader sampleWork.stopHeader = .ok () ∧
        Climbs startHeader blocks ∧ 2 ≤ blocks.length) →
      ∀ fuel startHeader s, startHeader.height < sampleWork.stopHeader.height →
        sampleWork.stopHeader.height - startHeader.height ≤ fuel →
        (fetchLoop sampleMarshal "peer" singleBlockPeer fuel
          ⟨startHeader, sampleWork.stopHeader⟩ s).1 = .done) ∧
    (∀ startHeader, startHeader.height + 1 < sampleWork.stopHeader.height →
      singleBlockPeer ⟨startHeader, sampleWork.stopHeader⟩ = .ok [⟨startHeader⟩] →
      ∀ fuel s, ∃ s', fetchLoop sampleMarshal "peer" singleBlockPeer fuel
          ⟨startHeader, sampleWork.stopHeader⟩ s =
        (.pending, ⟨startHeader, sampleWork.stopHeader⟩, s')) :=
  ⟨by decide, fun _ => rfl, fetchLoop_progress (by decide) fun _ => rfl⟩

/-- A peer that answers every request with its start block alone: the answer is accepted, and
after three passes the worker still asks from height 0. -/
theorem singleBlock_counterexample :
    verifyBlocksMsg [⟨sampleWork.startHeader⟩] sampleWork.startHeader sampleWork.stopHeader =
        .ok () ∧
      (fetchLoop sampleMarshal "peer" singleBlockPeer 3 sampleWork newStorage).1 = .pending ∧
      (fetchLoop sampleMarshal "peer" singleBlockPeer 3 sampleWork newStorage).2.1 = sampleWork := by
  decide

end KuskCore.Netsync
