import KuskCore.GoInt
import KuskCore.Protocol.Reorganize

/-!
# Header location

`blockKeeper.locateHeaders` of `netsync/chainmgr/block_keeper.go`, which answers a peer's
`GetHeaders` message (`handleGetHeadersMsg` asks it for at most `maxNumOfHeadersPerMsg` headers).
It starts at the header of the first locator hash that is on the main chain, or at the genesis
header, and walks up the main chain with a `uint64` cursor that moves `skip + 1` heights a pass,
until the cursor reaches the stop header or `maxNum` headers are collected.

Read in exact arithmetic, the answer holds the main-chain headers at the heights
`start + k * (skip + 1)` below the stop height and then the stop header, at most `maxNum` of them
(`expectedHeights`). While `stop + skip < 2 ^ 64` the cursor never wraps and that is the answer,
except that a stop header below the start gives none (`locateHeaders_slice`). For
`skip = 2 ^ 64 - 1` the step `skip + 1` is zero in `uint64`, and the start header comes back
`maxNum` times.
-/

namespace KuskCore.Netsync

open GoInt Protocol

/-- The errors of the chain's header lookups. -/
inductive ChainError where
  /-- `Store.GetBlockHeader`: no header under the hash. -/
  | noBlockHeader (hash : Nat)
  /-- `Chain.GetHeaderByHeight`: "can't find block header in given height". -/
  | noMainChainHash (height : Nat)
  deriving DecidableEq, Repr

/-- The chain store `locateHeaders` reads: the headers it holds, and the main chain's hashes by
height. -/
structure Chain where
  headers : List BlockHeader
  mainChain : List Nat
  deriving DecidableEq, Repr

namespace Chain

variable (c : Chain)

/-- `Store.GetBlockHeader`, which `Chain.GetHeaderByHash` is. -/
def getHeaderByHash (hash : Nat) : Except ChainError BlockHeader :=
  match c.headers.find? (·.hash == hash) with
  | some header => .ok header
  | none => .error (.noBlockHeader hash)

/-- `Store.GetMainChainHash`. -/
def getMainChainHash (height : Nat) : Except ChainError Nat :=
  match c.mainChain[height]? with
  | some hash => .ok hash
  | none => .error (.noMainChainHash height)

/-- `Chain.GetHeaderByHeight`. -/
def getHeaderByHeight (height : Nat) : Except ChainError BlockHeader := do
  let hash ← c.getMainChainHash height
  c.getHeaderByHash hash

/-- `Chain.InMainChain`. -/
def inMainChain (hash : Nat) : Bool :=
  match c.getHeaderByHash hash with
  | .error _ => false
  | .ok blockHeader =>
    match c.getMainChainHash blockHeader.height with
    | .error _ => false
    | .ok blockHash => blockHash == hash

/-- A store whose main-chain hash at each height is the hash of a stored header of that height. -/
def Valid : Prop :=
  ∀ height < c.mainChain.length,
    (c.getHeaderByHeight height).toOption.map BlockHeader.height = some height

instance : Decidable c.Valid :=
  inferInstanceAs (Decidable (∀ height < c.mainChain.length, _))

/-- The header is the main chain's at its height. -/
def OnMain (header : BlockHeader) : Prop := c.getHeaderByHeight header.height = .ok header

variable {c}

theorem getHeaderByHash_hash {hash : Nat} {header : BlockHeader}
    (h : c.getHeaderByHash hash = .ok header) : header.hash = hash := by
  unfold getHeaderByHash at h
  split at h
  · rename_i hf
    cases h
    simpa using List.find?_some hf
  · cases h

theorem OnMain.lt_length {header : BlockHeader} (h : c.OnMain header) :
    header.height < c.mainChain.length := by
  unfold OnMain getHeaderByHeight getMainChainHash at h
  split at h
  · rename_i hash hh
    exact (List.getElem?_eq_some_iff.mp hh).1
  · cases h

/-- Below the length of the main chain, every height holds a main-chain header. -/
theorem Valid.onMain (hc : c.Valid) {height : Nat} (hlt : height < c.mainChain.length) :
    ∃ header, c.getHeaderByHeight height = .ok header ∧ header.height = height ∧ c.OnMain header := by
  have h := hc height hlt
  cases hh : c.getHeaderByHeight height with
  | error err => simp [hh, Except.toOption] at h
  | ok header =>
    have hheight : header.height = height := by simpa [hh, Except.toOption] using h
    refine ⟨header, rfl, hheight, ?_⟩
    unfold OnMain
    rw [hheight, hh]

/-- A hash on the main chain is the hash of a main-chain header. -/
theorem onMain_of_inMainChain {hash : Nat} {header : BlockHeader}
    (hheader : c.getHeaderByHash hash = .ok header) (h : c.inMainChain hash = true) :
    c.OnMain header := by
  unfold inMainChain at h
  rw [hheader] at h
  dsimp only at h
  split at h
  · cases h
  · rename_i blockHash hmain
    have hb : blockHash = hash := by simpa using h
    unfold OnMain getHeaderByHeight
    rw [hmain, hb]
    exact hheader

end Chain

/-- The locator loop of `locateHeaders`: the header of the first hash that is on the main chain. -/
def findStart (c : Chain) : List Nat → Option BlockHeader
  | [] => none
  | hash :: locator =>
    match c.getHeaderByHash hash with
    | .ok header => if c.inMainChain header.hash then some header else findStart c locator
    | .error _ => findStart c locator

/-- The header loop of `locateHeaders`: `num` counts the passes left and `index` is the `uint64`
cursor. -/
def locateLoop (c : Chain) (stopHeader : BlockHeader) (skip : Nat) :
    Nat → Nat → List BlockHeader → Except ChainError (List BlockHeader)
  | 0, _, headers => .ok headers
  | num + 1, index, headers =>
    let index := uint64 (index + uint64 (skip + 1))
    if index ≥ stopHeader.height then .ok (headers ++ [stopHeader])
    else
      match c.getHeaderByHeight index with
      | .error err => .error err
      | .ok header => locateLoop c stopHeader skip num index (headers ++ [header])

/-- `blockKeeper.locateHeaders`. -/
def locateHeaders (c : Chain) (locator : List Nat) (stopHash skip maxNum : Nat) :
    Except ChainError (List BlockHeader) :=
  match c.getHeaderByHeight 0 with
  | .error err => .error err
  | .ok genesis =>
    let startHeader := (findStart c locator).getD genesis
    match c.getHeaderByHash stopHash with
    | .error err => .error err
    | .ok stopHeader =>
      if c.inMainChain stopHash = false ∨ stopHeader.height < startHeader.height then .ok []
      else if stopHeader.height = startHeader.height then .ok [startHeader]
      else locateLoop c stopHeader skip (subUint64 maxNum 1) startHeader.height [startHeader]

/-- The height the answer starts from: that of the first locator header on the main chain, or
the genesis height. -/
def startHeight (c : Chain) (locator : List Nat) : Nat :=
  ((findStart c locator).map BlockHeader.height).getD 0

/-- The heights of the answer in exact arithmetic: `start + k * step` while below `stop`, then
`stop`, at most `maxNum` of them. -/
def expectedHeights (start stop step maxNum : Nat) : List Nat :=
  (List.range' start ((stop - start + step - 1) / step) step ++ [stop]).take maxNum

/-! ## The expected heights -/

section Expected

variable {start stop step : Nat}

@[simp] theorem expectedHeights_zero : expectedHeights start stop step 0 = [] := rfl

/-- From the stop height on, only the stop height is left. -/
theorem expectedHeights_of_le (hstep : 0 < step) (h : stop ≤ start) (n : Nat) :
    expectedHeights start stop step (n + 1) = [stop] := by
  have hk : (stop - start + step - 1) / step = 0 := Nat.div_eq_of_lt (by omega)
  rw [expectedHeights, hk, List.range'_zero, List.nil_append, List.take_succ_cons,
    List.take_nil]

/-- One more step below the stop height takes one height off the count. -/
theorem expectedCount_succ (hstep : 0 < step) (h : start < stop) :
    (stop - start + step - 1) / step = (stop - (start + step) + step - 1) / step + 1 := by
  by_cases hle : start + step ≤ stop
  · rw [show stop - start + step - 1 = stop - (start + step) + step - 1 + step by omega,
      Nat.add_div_right _ hstep]
  · have h₁ : (stop - (start + step) + step - 1) / step = 0 := Nat.div_eq_of_lt (by omega)
    have h₂ : (stop - start + step - 1) / step = 1 :=
      Nat.div_eq_of_lt_le (by omega) (by rw [Nat.add_mul, Nat.one_mul]; omega)
    rw [h₁, h₂]

theorem expectedHeights_cons (hstep : 0 < step) (h : start < stop) (n : Nat) :
    expectedHeights start stop step (n + 1) = start :: expectedHeights (start + step) stop step n := by
  rw [expectedHeights, expectedCount_succ hstep h, List.range'_succ, List.cons_append,
    List.take_succ_cons, expectedHeights]

/-- Every height below the stop comes before it, `step` apart. -/
theorem expectedHeights_increasing (hstep : 0 < step) (n : Nat) :
    (expectedHeights start stop step n).Pairwise (· < ·) := by
  have hbelow : ∀ m ∈ List.range' start ((stop - start + step - 1) / step) step, m < stop := by
    intro m hm
    obtain ⟨i, hi, rfl⟩ := List.mem_range'.mp hm
    have hmul := (Nat.le_div_iff_mul_le hstep).mp (Nat.succ_le_of_lt hi)
    rw [Nat.succ_mul] at hmul
    rw [Nat.mul_comm]
    omega
  have hrange : (List.range' start ((stop - start + step - 1) / step) step).Pairwise (· < ·) := by
    refine List.pairwise_iff_getElem.mpr fun i j hi hj hij => ?_
    simp only [List.getElem_range']
    have : step * i < step * j := Nat.mul_lt_mul_of_pos_left hij hstep
    omega
  refine List.Pairwise.sublist (List.take_sublist _ _) ?_
  refine List.pairwise_append.mpr ⟨hrange, List.pairwise_singleton _ _, ?_⟩
  intro a ha b hb
  rw [List.mem_singleton.mp hb]
  exact hbelow a ha

end Expected

/-! ## The header loop -/

section Loop

variable {c : Chain} {stopHeader : BlockHeader} {skip : Nat}

/-- Without a wrap of the cursor, the loop serves the main-chain headers at the expected heights
after the cursor. -/
theorem locateLoop_expected (hc : c.Valid) (hstop : c.OnMain stopHeader)
    (hwrap : stopHeader.height + skip < 2 ^ 64) :
    ∀ num index acc, index < stopHeader.height →
      ∃ hs, locateLoop c stopHeader skip num index acc = .ok (acc ++ hs) ∧
        hs.map BlockHeader.height = expectedHeights (index + (skip + 1)) stopHeader.height (skip + 1) num ∧
        ∀ h ∈ hs, c.OnMain h := by
  intro num
  induction num with
  | zero =>
    intro index acc _
    exact ⟨[], by rw [List.append_nil]; rfl, rfl, by simp⟩
  | succ num ih =>
    intro index acc hidx
    -- the cursor moves by exactly `skip + 1`
    have hstep : uint64 (index + uint64 (skip + 1)) = index + (skip + 1) := by
      rw [uint64_of_lt (show skip + 1 < 2 ^ 64 by omega), uint64_of_lt (by omega)]
    by_cases hge : index + (skip + 1) ≥ stopHeader.height
    · refine ⟨[stopHeader], ?_, ?_, by simpa using hstop⟩
      · simp only [locateLoop, hstep, if_pos hge]
      · rw [expectedHeights_of_le (Nat.succ_pos _) hge]
        rfl
    · obtain ⟨header, hheader, hheight, hmain⟩ :=
        hc.onMain (show index + (skip + 1) < c.mainChain.length by have := hstop.lt_length; omega)
      obtain ⟨hs, hrun, hmap, hall⟩ := ih (index + (skip + 1)) (acc ++ [header]) (by omega)
      refine ⟨header :: hs, ?_, ?_, ?_⟩
      · simp only [locateLoop, hstep, if_neg hge, hheader]
        rw [hrun, List.append_assoc, List.singleton_append]
      · rw [List.map_cons, hmap, hheight, expectedHeights_cons (Nat.succ_pos _) (by omega)]
      · intro h hh
        rcases List.mem_cons.mp hh with rfl | hh
        · exact hmain
        · exact hall h hh

/-- With `skip = 2 ^ 64 - 1` the cursor stays where it is: the loop repeats its header. -/
theorem locateLoop_maxSkip {header : BlockHeader} (hmain : c.OnMain header)
    (hlt : header.height < stopHeader.height) (hbound : stopHeader.height < 2 ^ 64) :
    ∀ num acc, locateLoop c stopHeader (2 ^ 64 - 1) num header.height acc =
      .ok (acc ++ List.replicate num header) := by
  intro num
  induction num with
  | zero =>
    intro acc
    rw [List.replicate_zero, List.append_nil]
    rfl
  | succ num ih =>
    intro acc
    have hstay : uint64 (header.height + uint64 (2 ^ 64 - 1 + 1)) = header.height := by
      rw [show uint64 (2 ^ 64 - 1 + 1) = 0 from rfl, Nat.add_zero, uint64_of_lt (by omega)]
    have hnot : ¬ header.height ≥ stopHeader.height := by omega
    simp only [locateLoop, hstay, if_neg hnot]
    rw [hmain]
    dsimp only
    rw [ih, List.replicate_succ, List.append_assoc, List.singleton_append]

end Loop

/-! ## The answer -/

section Answer

variable {c : Chain}

theorem findStart_onMain : ∀ {locator : List Nat} {header : BlockHeader},
    findStart c locator = some header → c.OnMain header
  | [], _, h => by cases h
  | hash :: locator, header, h => by
    unfold findStart at h
    split at h
    · rename_i found hfound
      split at h
      · rename_i hin
        cases h
        rw [Chain.getHeaderByHash_hash hfound] at hin
        exact Chain.onMain_of_inMainChain hfound hin
      · exact findStart_onMain h
    · exact findStart_onMain h

/-- The start header is on the main chain, at `startHeight`. -/
theorem startHeader_onMain (hc : c.Valid) (hne : 0 < c.mainChain.length) (locator : List Nat) :
    ∃ genesis, c.getHeaderByHeight 0 = .ok genesis ∧
      c.OnMain ((findStart c locator).getD genesis) ∧
      ((findStart c locator).getD genesis).height = startHeight c locator := by
  obtain ⟨genesis, hgenesis, hheight, hmain⟩ := hc.onMain hne
  refine ⟨genesis, hgenesis, ?_, ?_⟩
  · cases hs : findStart c locator with
    | none => exact hmain
    | some header => exact findStart_onMain hs
  · unfold startHeight
    cases findStart c locator with
    | none => exact hheight
    | some header => rfl

/-- The answer to a `GetHeaders` request with a stop hash on the main chain and
`1 ≤ maxNum < 2 ^ 64`. While `stop + skip < 2 ^ 64`, it holds the main-chain headers at the
expected heights (none for a stop below the start), strictly increasing. For `skip = 2 ^ 64 - 1`
and a start below the stop, it holds the start header `maxNum` times. -/
theorem locateHeaders_slice {locator : List Nat} {stopHash skip maxNum : Nat}
    {stopHeader : BlockHeader} (hc : c.Valid) (hlen : c.mainChain.length ≤ 2 ^ 64)
    (hstopHeader : c.getHeaderByHash stopHash = .ok stopHeader)
    (hstop : c.inMainChain stopHash = true) (hmax : 1 ≤ maxNum) (hmax' : maxNum < 2 ^ 64) :
    (stopHeader.height + skip < 2 ^ 64 →
      ∃ headers, locateHeaders c locator stopHash skip maxNum = .ok headers ∧
        (∀ header ∈ headers, c.OnMain header) ∧
        headers.map BlockHeader.height =
          (if stopHeader.height < startHeight c locator then []
            else expectedHeights (startHeight c locator) stopHeader.height (skip + 1) maxNum) ∧
        (headers.map BlockHeader.height).Pairwise (· < ·)) ∧
    (skip = 2 ^ 64 - 1 → startHeight c locator < stopHeader.height →
      ∃ startHeader, c.OnMain startHeader ∧ startHeader.height = startHeight c locator ∧
        locateHeaders c locator stopHash skip maxNum = .ok (List.replicate maxNum startHeader)) := by
  have hstopMain := Chain.onMain_of_inMainChain hstopHeader hstop
  have hstopLt := hstopMain.lt_length
  obtain ⟨genesis, hgenesis, hstartMain, hstartHeight⟩ :=
    startHeader_onMain hc (by omega) locator
  obtain ⟨startHeader, hsh⟩ : ∃ h, (findStart c locator).getD genesis = h := ⟨_, rfl⟩
  rw [hsh] at hstartMain hstartHeight
  -- `num < maxNum - 1` in `uint64`: the loop makes `maxNum - 1` passes
  obtain ⟨m, rfl⟩ : ∃ m, maxNum = m + 1 := ⟨maxNum - 1, by omega⟩
  have hpasses : subUint64 (m + 1) 1 = m := by rw [subUint64_of_le hmax hmax']; omega
  -- the two branches of `locateHeaders` that the loop does not run
  have hbelow : stopHeader.height < startHeader.height →
      locateHeaders c locator stopHash skip (m + 1) = .ok [] := fun h => by
    simp only [locateHeaders, hgenesis, hstopHeader, hstop, hsh]
    rw [if_pos (.inr h)]
  have hloop : startHeader.height < stopHeader.height →
      locateHeaders c locator stopHash skip (m + 1) =
        locateLoop c stopHeader skip m startHeader.height [startHeader] :=
    fun h => by
      simp only [locateHeaders, hgenesis, hstopHeader, hstop, hsh]
      rw [if_neg (by simp; omega), if_neg (by omega), hpasses]
  refine ⟨fun hwrap => ?_, fun hskip hlt => ?_⟩
  · rcases Nat.lt_trichotomy stopHeader.height startHeader.height with h | h | h
    · refine ⟨[], hbelow h, by simp, ?_, List.Pairwise.nil⟩
      rw [if_pos (by omega), List.map_nil]
    · refine ⟨[startHeader], ?_, by simpa using hstartMain, ?_, by simp⟩
      · simp only [locateHeaders, hgenesis, hstopHeader, hstop, hsh]
        rw [if_neg (by simp; omega), if_pos h]
      · rw [if_neg (by omega), ← hstartHeight, ← h,
          expectedHeights_of_le (Nat.succ_pos _) (Nat.le_refl _), List.map_singleton, h]
    · obtain ⟨hs, hrun, hmap, hall⟩ :=
        locateLoop_expected hc hstopMain hwrap m startHeader.height
          [startHeader] h
      have hheights : ([startHeader] ++ hs).map BlockHeader.height =
          expectedHeights (startHeight c locator) stopHeader.height (skip + 1) (m + 1) := by
        rw [← hstartHeight, expectedHeights_cons (Nat.succ_pos _) h, List.map_append,
          hmap, List.map_singleton, List.singleton_append]
      refine ⟨[startHeader] ++ hs, by rw [hloop h, hrun], ?_, ?_, ?_⟩
      · intro header hh
        rcases List.mem_append.mp hh with hh | hh
        · rw [List.mem_singleton.mp hh]
          exact hstartMain
        · exact hall header hh
      · rw [if_neg (by omega), hheights]
      · rw [hheights]
        exact expectedHeights_increasing (Nat.succ_pos _) _
  · subst hskip
    refine ⟨startHeader, hstartMain, hstartHeight, ?_⟩
    rw [hloop (by omega), locateLoop_maxSkip hstartMain (by omega) (by omega),
      List.replicate_succ, List.singleton_append]

/-- A main chain of four headers, hashes `100` to `103`. -/
def sampleChain : Chain :=
  ⟨[⟨100, 0, 0⟩, ⟨101, 1, 100⟩, ⟨102, 2, 101⟩, ⟨103, 3, 102⟩], [100, 101, 102, 103]⟩

theorem locateHeaders_slice_sample :
    sampleChain.Valid ∧ sampleChain.mainChain.length ≤ 2 ^ 64 ∧
      sampleChain.getHeaderByHash 103 = .ok ⟨103, 3, 102⟩ ∧ sampleChain.inMainChain 103 = true ∧
      ((⟨103, 3, 102⟩ : BlockHeader).height + 0 < 2 ^ 64 →
        ∃ headers, locateHeaders sampleChain [101] 103 0 1000 = .ok headers ∧
          (∀ header ∈ headers, sampleChain.OnMain header) ∧
          headers.map BlockHeader.height =
            (if (⟨103, 3, 102⟩ : BlockHeader).height < startHeight sampleChain [101] then []
              else expectedHeights (startHeight sampleChain [101]) (⟨103, 3, 102⟩ : BlockHeader).height
                (0 + 1) 1000) ∧
          (headers.map BlockHeader.height).Pairwise (· < ·)) ∧
      (0 = 2 ^ 64 - 1 → startHeight sampleChain [101] < (⟨103, 3, 102⟩ : BlockHeader).height →
        ∃ startHeader, sampleChain.OnMain startHeader ∧
          startHeader.height = startHeight sampleChain [101] ∧
          locateHeaders sampleChain [101] 103 0 1000 = .ok (List.replicate 1000 startHeader)) :=
  ⟨by decide, by decide, rfl, by decide,
    locateHeaders_slice (by decide) (by decide) rfl (by decide) (by decide) (by decide)⟩

/-- A request from the genesis to height 3 with `skip = 2 ^ 64 - 1`: Go sends the genesis header
three times, where exact arithmetic would serve heights 0 and 3. -/
theorem maxSkip_counterexample :
    locateHeaders sampleChain [] 103 (2 ^ 64 - 1) 3 = .ok [⟨100, 0, 0⟩, ⟨100, 0, 0⟩, ⟨100, 0, 0⟩] ∧
      expectedHeights 0 3 (2 ^ 64 - 1 + 1) 3 = [0, 3] := by
  decide

end Answer

end KuskCore.Netsync
