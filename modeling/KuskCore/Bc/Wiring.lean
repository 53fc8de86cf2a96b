import Mathlib
import KuskCore.Bc.MapTx

/-!
# How `MapTx` wires a transaction

Validation never sees a `TxData`: it walks the entries `MapTx` wrote, from the header to the
results, from each result to the mux, and from the mux to the inputs, and at every step checks that
the entry found names the one it came from, at the right position and with the right value. `Wired`
is that shape: the mux is found under its ID; its destinations are the header's results, each a
result entry whose source is the mux at the destination's position; its sources are the input
entries, each with the mux as its destination at the source's position, and a spend or veto input
finds the output it spends; and the IDs of the mux, the results and the inputs are distinct.

`mapTx_wired` proves that `MapTx` builds this shape from any transaction without a coinbase input,
when no two inputs have one ID and the entry hash has no collision among the transaction's entries,
and that the mux carries the inputs' values to the outputs. Validation proofs then read the entry
graph through `Wired` and never unfold `MapTx`.
-/

namespace KuskCore.Types

/-- `AssetID()` and `Amount()` of an issuance, spend or veto input. -/
def TxInput.assetAmount (h : Bc.Hasher) (input : TxInput) : Option AssetAmount :=
  match input.typedInput with
  | some (.issuance ii) => some { assetId := ii.assetID h.calcAssetID, amount := ii.amount }
  | some (.spend si) => some si.spendCommitment.assetAmount
  | some (.veto vi) => some vi.spendCommitment.assetAmount
  | _ => none

end KuskCore.Types

namespace KuskCore.Bc

open KuskCore.Types GoInt

/-- Every write of `Entries` is under the `EntryID` of its entry, as `addEntry` writes it. -/
def Tx.Keyed (h : Hasher) (tx : Tx) : Prop := ∀ p ∈ tx.entries, h.entryID p.2.body = p.1

/-- An input entry that gives the value `v`: an issuance, or a spend or veto input whose spent
output is found, of its kind, with that value. -/
def SpendsValue (tx : Tx) : Entry → AssetAmount → Prop
  | .issuance _, _ => True
  | .spend s, v => ∃ o, tx.originalOutput s.spentOutputId = .ok o ∧ o.source.value = v
  | .vetoInput vi, v => ∃ o, tx.voteOutput vi.spentOutputId = .ok o ∧ o.source.value = v
  | _, _ => False

/-- The entry graph validation expects around the mux `mux`, found under `muxID`. -/
structure Wired (h : Hasher) (tx : Tx) (muxID : Hash) (mux : Mux) : Prop where
  keyed : tx.Keyed h
  mux_found : tx.entry muxID = some (.mux mux)
  resultIds : tx.txHeader.resultIds = mux.witnessDestinations.map (·.ref)
  result : ∀ i d, mux.witnessDestinations[i]? = some d → d.position = 0 ∧
    ∃ e, tx.entry d.ref = some e ∧ e.source? = some ⟨muxID, d.value, i⟩
  input : ∀ k s, mux.sources[k]? = some s → s.position = 0 ∧
    ∃ e, tx.entry s.ref = some e ∧ e.destination? = some ⟨muxID, s.value, k⟩ ∧
      SpendsValue tx e s.value
  ids_nodup : (muxID :: mux.witnessDestinations.map (·.ref) ++ mux.sources.map (·.ref)).Nodup

namespace Wired

variable {h : Hasher} {tx : Tx} {muxID : Hash} {mux : Mux}

/-- The IDs of a wired transaction, split: the mux's is none of the others, and the results' and
the sources' are distinct among themselves and from each other. -/
theorem ids_split (hw : Wired h tx muxID mux) :
    muxID ∉ mux.witnessDestinations.map (·.ref) ++ mux.sources.map (·.ref) ∧
      (mux.witnessDestinations.map (·.ref)).Nodup ∧ (mux.sources.map (·.ref)).Nodup ∧
      ∀ a ∈ mux.witnessDestinations.map (·.ref), ∀ b ∈ mux.sources.map (·.ref), a ≠ b := by
  have hnd := hw.ids_nodup
  rw [List.cons_append, List.nodup_cons, List.nodup_append] at hnd
  exact hnd

theorem results_nodup (hw : Wired h tx muxID mux) :
    (mux.witnessDestinations.map (·.ref)).Nodup :=
  hw.ids_split.2.1

theorem sources_nodup (hw : Wired h tx muxID mux) : (mux.sources.map (·.ref)).Nodup :=
  hw.ids_split.2.2.1

theorem result_ne_mux (hw : Wired h tx muxID mux) {d : ValueDestination}
    (hd : d ∈ mux.witnessDestinations) : d.ref ≠ muxID := fun heq =>
  hw.ids_split.1 (List.mem_append_left _ (heq ▸ List.mem_map_of_mem hd))

theorem result_not_mem_sources (hw : Wired h tx muxID mux) {d : ValueDestination}
    (hd : d ∈ mux.witnessDestinations) : d.ref ∉ mux.sources.map (·.ref) := fun hs =>
  hw.ids_split.2.2.2 _ (List.mem_map_of_mem hd) _ hs rfl

end Wired

/-- What `mapInputs` makes of an issuance, spend or veto input at index `k`: its entry, keyed by its
`EntryID`, with ordinal `k`, and its mux source, the entry's value from position zero; a spend or
veto input also writes the output it spends, keyed by its `EntryID`, with the input's value. -/
inductive MappedInput.Fresh (h : Hasher) (k : Nat) : MappedInput → Prop
  | issuance (i : Issuance) (hk : i.ordinal = k) :
    Fresh h k
      { prevout := none, inputID := h.entryID (Entry.issuance i).body, input := .issuance i
        muxSource := ⟨h.entryID (Entry.issuance i).body, i.value, 0⟩ }
  | spend (s : Spend) (o : OriginalOutput) (hk : s.ordinal = k)
      (hid : h.entryID (Entry.originalOutput o).body = s.spentOutputId) :
    Fresh h k
      { prevout := some (s.spentOutputId, .originalOutput o)
        inputID := h.entryID (Entry.spend s).body, input := .spend s
        muxSource := ⟨h.entryID (Entry.spend s).body, o.source.value, 0⟩ }
  | vetoInput (v : VetoInput) (o : VoteOutput) (hk : v.ordinal = k)
      (hid : h.entryID (Entry.voteOutput o).body = v.spentOutputId) :
    Fresh h k
      { prevout := some (v.spentOutputId, .voteOutput o)
        inputID := h.entryID (Entry.vetoInput v).body, input := .vetoInput v
        muxSource := ⟨h.entryID (Entry.vetoInput v).body, o.source.value, 0⟩ }

/-- The source an entry's body hashes: a result's. -/
def EntryBody.source? : EntryBody → Option ValueSource
  | .originalOutput s .. => some s
  | .voteOutput s .. => some s
  | .retirement s => some s
  | _ => none

/-- Whether a body is an issuance's, a spend's or a veto input's. -/
def EntryBody.isInput : EntryBody → Bool
  | .issuance .. | .spend .. | .vetoInput .. => true
  | _ => false

theorem Entry.source?_eq_body (e : Entry) : e.source? = e.body.source? := by
  cases e <;> rfl

theorem EntryBody.isInput_of_source? {b : EntryBody} {s : ValueSource} (hs : b.source? = some s) :
    b.isInput = false := by
  cases b <;> first | rfl | cases hs

@[simp] theorem Entry.body_setDestination (d : ValueDestination) (e : Entry) :
    (Entry.setDestination d e).body = e.body := by
  cases e <;> rfl

/-- A lookup finds the entry every write under its key holds. -/
theorem lookup_eq_of_forall {l : List (Hash × Entry)} {k : Hash} {e : Entry} (hmem : (k, e) ∈ l)
    (hall : ∀ q ∈ l, q.1 = k → q.2 = e) : l.lookup k = some e := by
  have hsome : (l.lookup k).isSome := List.lookup_isSome_iff.mpr ⟨(k, e), hmem, beq_self_eq_true _⟩
  obtain ⟨e', he'⟩ := Option.isSome_iff_exists.mp hsome
  rw [he']
  exact congrArg some (hall _ (mem_of_lookup_eq_some he') rfl)

/-- In a collision-free transaction, an original output written under `id` is found there, with
its source. -/
theorem Tx.originalOutput_of_mem {tx : Tx} (hcf : tx.CollisionFree) {id : Hash} {o : OriginalOutput}
    (hmem : (id, .originalOutput o) ∈ tx.entries) :
    ∃ o', tx.originalOutput id = .ok o' ∧ o'.source = o.source := by
  obtain ⟨e, he, hb⟩ := Tx.entry_body_of_mem hcf hmem
  cases e <;> simp only [Entry.body, reduceCtorEq, EntryBody.originalOutput.injEq] at hb
  exact ⟨_, by simp only [Tx.originalOutput, he], hb.1⟩

/-- In a collision-free transaction, a vote output written under `id` is found there, with its
source. -/
theorem Tx.voteOutput_of_mem {tx : Tx} (hcf : tx.CollisionFree) {id : Hash} {o : VoteOutput}
    (hmem : (id, .voteOutput o) ∈ tx.entries) :
    ∃ o', tx.voteOutput id = .ok o' ∧ o'.source = o.source := by
  obtain ⟨e, he, hb⟩ := Tx.entry_body_of_mem hcf hmem
  cases e <;> simp only [Entry.body, reduceCtorEq, EntryBody.voteOutput.injEq] at hb
  exact ⟨_, by simp only [Tx.voteOutput, he], hb.1⟩

/-- The mux `generateTx` writes: `initMux`'s, with the results as its destinations. -/
def outputMux (h : Hasher) (t : TxData) (mapped : List MappedInput) (muxID : Hash) : Mux :=
  { initialMux mapped with
    witnessDestinations := List.zipWith resultDestination t.outputs (mapOutputs h muxID t.outputs) }

/-- The input at index `k` as `initMux` leaves it: `c` is the fresh mapped input `m`, with its entry
connected to the mux at position `k`, with its own value. -/
structure ConnectedInput (h : Hasher) (muxID : Hash) (k : Nat) (m c : MappedInput) : Prop where
  fresh : m.Fresh h k
  prevout : c.prevout = m.prevout
  inputID : c.inputID = m.inputID
  muxSource : c.muxSource = m.muxSource
  body : c.input.body = m.input.body
  destination : c.input.destination? = some ⟨muxID, m.muxSource.value, k⟩

section Map

variable {h : Hasher}

/-- A fresh input's spent output is an output, whose body names a source. -/
theorem MappedInput.Fresh.prevout_source {k : Nat} {m : MappedInput} (hf : m.Fresh h k) :
    ∀ p ∈ m.prevout, p.2.body.source?.isSome := by
  cases hf <;> simp [EntryBody.source?, Entry.body]

theorem MappedInput.Fresh.isInput {k : Nat} {m : MappedInput} (hf : m.Fresh h k) :
    m.input.body.isInput = true := by
  cases hf <;> rfl

theorem MappedInput.Fresh.inputID {k : Nat} {m : MappedInput} (hf : m.Fresh h k) :
    m.inputID = h.entryID m.input.body := by
  cases hf <;> rfl

theorem MappedInput.Fresh.muxSource {k : Nat} {m : MappedInput} (hf : m.Fresh h k) :
    m.muxSource = ⟨m.inputID, m.muxSource.value, 0⟩ := by
  cases hf <;> rfl

/-- Each write of a fresh input is keyed by its `EntryID`. -/
theorem MappedInput.Fresh.keyed {k : Nat} {m : MappedInput} (hf : m.Fresh h k) :
    ∀ q ∈ m.writes, h.entryID q.2.body = q.1 := by
  cases hf <;> simp_all [MappedInput.writes]

/-! ## Mapping the inputs -/

/-- An input that is not a coinbase is mapped fresh, with the input's value. -/
theorem mapInput_fresh {outputs : List TxOutput} {k : Nat} {input : TxInput} {m : MappedInput}
    (hcb : ∀ cb, input.typedInput ≠ some (.coinbase cb))
    (hm : mapInput h outputs k input = some m) :
    m.Fresh h k ∧ input.assetAmount h = some m.muxSource.value := by
  unfold mapInput at hm
  cases hti : input.typedInput with
  | none => simp [hti] at hm
  | some ti =>
    rw [hti] at hm
    cases ti with
    | issuance ii =>
      cases hm
      exact ⟨.issuance _ rfl, by simp only [TxInput.assetAmount, hti]; rfl⟩
    | spend si =>
      cases hm
      -- the spent output as `mapSpendInput` recalls it from the spend commitment
      let o : OriginalOutput :=
        { source := SpendCommitment.source si.spendCommitment,
          controlProgram := SpendCommitment.program si.spendCommitment, ordinal := 0,
          stateData := si.spendCommitment.stateData }
      exact ⟨.spend
          { spentOutputId := h.entryID (Entry.originalOutput o).body, witnessDestination := none,
            witnessArguments := si.arguments, ordinal := k } o rfl rfl,
        by simp only [TxInput.assetAmount, hti]; rfl⟩
    | coinbase cb => exact absurd hti (hcb cb)
    | veto vi =>
      cases hm
      let o : VoteOutput :=
        { source := SpendCommitment.source vi.spendCommitment,
          controlProgram := SpendCommitment.program vi.spendCommitment, ordinal := 0,
          vote := vi.vote, stateData := vi.spendCommitment.stateData }
      exact ⟨.vetoInput
          { spentOutputId := h.entryID (Entry.voteOutput o).body, witnessDestination := none,
            witnessArguments := vi.arguments, ordinal := k } o rfl rfl,
        by simp only [TxInput.assetAmount, hti]; rfl⟩

/-- `mapInputs` from index `i` maps each input at its own index. -/
theorem mapInputs_getElem? {outputs : List TxOutput} :
    ∀ {i : Nat} {inputs : List TxInput} {mapped : List MappedInput},
      mapInputs h outputs i inputs = some mapped →
        mapped.length = inputs.length ∧ ∀ k m, mapped[k]? = some m →
          ∃ input, inputs[k]? = some input ∧ mapInput h outputs (i + k) input = some m
  | _, [], mapped, hm => by
    cases hm
    exact ⟨rfl, fun k m hk => by simp at hk⟩
  | i, input :: inputs, mapped, hm => by
    simp only [mapInputs, Option.bind_eq_bind, Option.bind_eq_some_iff, Option.pure_def,
      Option.some.injEq] at hm
    obtain ⟨m, hm, ms, hms, rfl⟩ := hm
    obtain ⟨hlen, hget⟩ := mapInputs_getElem? hms
    refine ⟨by simp [hlen], fun k m' hk => ?_⟩
    cases k with
    | zero => exact ⟨input, rfl, by simpa using (Option.some.inj hk) ▸ hm⟩
    | succ k =>
      obtain ⟨input', hin, hmap⟩ := hget k m' hk
      exact ⟨input', hin, by rwa [show i + (k + 1) = i + 1 + k by omega]⟩

/-- Without a coinbase input, the mux sources `mapInputs` makes carry the inputs' values. -/
theorem mapInputs_values {outputs : List TxOutput} :
    ∀ {i : Nat} {inputs : List TxInput} {mapped : List MappedInput},
      (∀ input ∈ inputs, ∀ cb, input.typedInput ≠ some (.coinbase cb)) →
      mapInputs h outputs i inputs = some mapped →
        mapped.map (·.muxSource.value) = inputs.filterMap (TxInput.assetAmount h)
  | _, [], _, _, hm => by
    cases hm
    rfl
  | i, input :: inputs, mapped, hcb, hm => by
    simp only [mapInputs, Option.bind_eq_bind, Option.bind_eq_some_iff, Option.pure_def,
      Option.some.injEq] at hm
    obtain ⟨m, hm, ms, hms, rfl⟩ := hm
    have hv := (mapInput_fresh (hcb input List.mem_cons_self) hm).2
    rw [List.map_cons, List.filterMap_cons_some hv,
      mapInputs_values (fun x hx => hcb x (List.mem_cons_of_mem _ hx)) hms]

/-! ## Connecting the inputs to the mux -/

/-- `SetDestination` and the other changes `initMux` makes to an input keep what is hashed. -/
theorem connectInput_body {written : List (Hash × Entry)} {muxID : Hash}
    {sources : List ValueSource} {last : Bool} {e e' : Entry}
    (hc : connectInput written muxID sources last e = some e') : e'.body = e.body := by
  unfold connectInput at hc
  split at hc <;> (try split at hc) <;> (try split at hc) <;> cases hc <;> simp

/-- `initMux`'s loops connect each mapped input at its own index, and keep its ID, its mux source
and the output it spends. -/
theorem connectInputs_getElem? {written : List (Hash × Entry)} {muxID : Hash}
    {sources : List ValueSource} :
    ∀ {ms cs : List MappedInput}, connectInputs written muxID sources ms = some cs →
      cs.length = ms.length ∧ ∀ (k : Nat) (c : MappedInput), cs[k]? = some c →
        ∃ (m : MappedInput) (last : Bool), ms[k]? = some m ∧
        c = { m with input := c.input } ∧
          connectInput written muxID sources last m.input = some c.input
  | [], cs, hc => by
    cases hc
    exact ⟨rfl, fun k c hk => by simp at hk⟩
  | m :: ms, cs, hc => by
    simp only [connectInputs, Option.bind_eq_bind, Option.bind_eq_some_iff, Option.pure_def,
      Option.some.injEq] at hc
    obtain ⟨input, hin, cs', hcs', rfl⟩ := hc
    obtain ⟨hlen, hget⟩ := connectInputs_getElem? hcs'
    refine ⟨by simp [hlen], fun k c hk => ?_⟩
    cases k with
    | zero =>
      cases hk
      exact ⟨m, _, rfl, rfl, hin⟩
    | succ k => exact hget k c hk

/-- A fresh input is connected to the mux at its own index, with its own value, when its spent
output is found in the map with the body it was written with. -/
theorem connectInput_fresh {written : List (Hash × Entry)} {muxID : Hash}
    {sources : List ValueSource} {last : Bool} {k : Nat} {m : MappedInput} {e : Entry}
    (hf : m.Fresh h k)
    (hw : ∀ p ∈ m.prevout, ∀ e', written.lookup p.1 = some e' → e'.body = p.2.body)
    (hc : connectInput written muxID sources last m.input = some e) :
    e.body = m.input.body ∧ e.destination? = some ⟨muxID, m.muxSource.value, k⟩ := by
  refine ⟨connectInput_body hc, ?_⟩
  cases hf with
  | issuance i hk =>
    cases hc
    simp [Entry.setDestination, Entry.destination?, hk]
  | spend s o hk hid =>
    simp only [connectInput] at hc
    split at hc
    · rename_i o' hl
      cases hc
      have hb := hw _ rfl _ hl
      simp only [Entry.body, EntryBody.originalOutput.injEq] at hb
      simp [Entry.setDestination, Entry.destination?, hk, hb.1]
    · cases hc
  | vetoInput v o hk hid =>
    simp only [connectInput] at hc
    split at hc
    · rename_i o' hl
      cases hc
      have hb := hw _ rfl _ hl
      simp only [Entry.body, EntryBody.voteOutput.injEq] at hb
      simp [Entry.setDestination, Entry.destination?, hk, hb.1]
    · cases hc

/-! ## The transaction `generateTx` writes -/

section Generate

variable {t : TxData} {mapped connected : List MappedInput} {muxID : Hash}

theorem generateTx_entries : (generateTx h t mapped muxID connected).entries =
    ((generateTx h t mapped muxID connected).id,
      .txHeader (generateTx h t mapped muxID connected).txHeader) ::
      ((mapOutputs h muxID t.outputs).reverse ++
        (muxID, .mux (outputMux h t mapped muxID)) ::
          (connected.flatMap MappedInput.writes).reverse) :=
  rfl

theorem generateTx_id :
    (generateTx h t mapped muxID connected).id =
      h.entryID (Entry.txHeader (generateTx h t mapped muxID connected).txHeader).body :=
  rfl

theorem generateTx_resultIds :
    (generateTx h t mapped muxID connected).txHeader.resultIds =
      (mapOutputs h muxID t.outputs).map (·.1) :=
  rfl

theorem generateTx_inputIDs :
    (generateTx h t mapped muxID connected).inputIDs = mapped.map (·.inputID) :=
  rfl

theorem mem_mapOutputs {outputs : List TxOutput} {q : Hash × Entry} :
    q ∈ mapOutputs h muxID outputs ↔ ∃ i out, outputs[i]? = some out ∧
      q = (h.entryID (mapOutput muxID i out).body, mapOutput muxID i out) := by
  simp only [List.mem_iff_getElem?, mapOutputs, List.getElem?_mapIdx, Option.map_eq_some_iff]
  exact ⟨fun ⟨i, out, hi, hq⟩ => ⟨i, out, hi, hq.symm⟩,
    fun ⟨i, out, hi, hq⟩ => ⟨i, out, hi, hq.symm⟩⟩

/-- A result's source is the mux, at the output's position, with the output's value. -/
theorem mapOutput_source? (i : Nat) (out : TxOutput) :
    (mapOutput muxID i out).source? = some ⟨muxID, out.outputCommitment.assetAmount, i⟩ := by
  unfold mapOutput
  split <;> dsimp only <;> split <;> rfl

theorem mem_generateTx_entries {q : Hash × Entry} :
    q ∈ (generateTx h t mapped muxID connected).entries ↔
      q = ((generateTx h t mapped muxID connected).id,
        .txHeader (generateTx h t mapped muxID connected).txHeader) ∨
      q ∈ mapOutputs h muxID t.outputs ∨ q = (muxID, .mux (outputMux h t mapped muxID)) ∨
      ∃ c ∈ connected, q ∈ c.writes := by
  rw [generateTx_entries]
  simp only [List.mem_cons, List.mem_append, List.mem_reverse, List.mem_flatMap]

/-! ## The wiring -/

theorem initMux_eq_some :
    initMux h mapped = some (muxID, connected) ↔
      muxID = h.entryID (Entry.mux (initialMux mapped)).body ∧
      connectInputs
        ((muxID, .mux (initialMux mapped)) :: (mapped.flatMap MappedInput.writes).reverse) muxID
        (mapped.map (·.muxSource)) mapped = some connected := by
  simp only [initMux, Option.map_eq_some_iff, Prod.mk.injEq]
  constructor
  · rintro ⟨cs, hcs, rfl, rfl⟩
    exact ⟨rfl, hcs⟩
  · rintro ⟨rfl, hcs⟩
    exact ⟨connected, hcs, rfl, rfl⟩

theorem mapTx_eq_some {tx : Tx} :
    mapTx h t = some tx ↔ ∃ mapped muxID connected,
      mapInputs h t.outputs 0 t.inputs = some mapped ∧ initMux h mapped = some (muxID, connected) ∧
        generateTx h t mapped muxID connected = tx := by
  simp only [mapTx, Option.bind_eq_bind, Option.bind_eq_some_iff, Option.pure_def,
    Option.some.injEq]
  constructor
  · rintro ⟨mapped, hm, ⟨muxID, connected⟩, hi, htx⟩
    exact ⟨mapped, muxID, connected, hm, hi, htx⟩
  · rintro ⟨mapped, muxID, connected, hm, hi, htx⟩
    exact ⟨mapped, hm, (muxID, connected), hi, htx⟩

/-- The mapped input at an index has its connected input at that index. -/
theorem connectInputs_pair {written : List (Hash × Entry)} {sources : List ValueSource}
    (hconn : connectInputs written muxID sources mapped = some connected) {k : Nat}
    {m : MappedInput} (hm : mapped[k]? = some m) :
    ∃ c last, connected[k]? = some c ∧ c = { m with input := c.input } ∧
      connectInput written muxID sources last m.input = some c.input := by
  obtain ⟨hlen, hget⟩ := connectInputs_getElem? hconn
  have hk : k < connected.length := hlen ▸ (List.getElem?_eq_some_iff.mp hm).1
  obtain ⟨m', last, hm', heq, hci⟩ := hget k connected[k] (List.getElem?_eq_getElem hk)
  rw [hm] at hm'
  cases hm'
  exact ⟨connected[k], last, List.getElem?_eq_getElem hk, heq, hci⟩

/-- Every write of the map `initMux` reads is a write of the transaction too, under the same ID
and with the same body. -/
theorem written_shadowed {written : List (Hash × Entry)} {sources : List ValueSource}
    (hconn : connectInputs written muxID sources mapped = some connected) :
    ∀ p ∈ (muxID, Entry.mux (initialMux mapped)) :: (mapped.flatMap MappedInput.writes).reverse,
      ∃ q ∈ (generateTx h t mapped muxID connected).entries, q.1 = p.1 ∧ q.2.body = p.2.body := by
  intro p hp
  simp only [List.mem_cons, List.mem_reverse, List.mem_flatMap] at hp
  rcases hp with rfl | ⟨m, hm, hp⟩
  · exact ⟨_, Iff.mpr mem_generateTx_entries (.inr (.inr (.inl rfl))), rfl, rfl⟩
  · obtain ⟨k, hk⟩ := List.mem_iff_getElem?.mp hm
    obtain ⟨c, last, hc, heq, hci⟩ := connectInputs_pair hconn hk
    have hcw : ∀ q ∈ c.writes, q ∈ (generateTx h t mapped muxID connected).entries :=
      fun q hq => Iff.mpr mem_generateTx_entries (.inr (.inr (.inr ⟨c, List.mem_of_getElem? hc, hq⟩)))
    have hprev : c.prevout = m.prevout := congrArg (·.prevout) heq
    simp only [MappedInput.writes, List.mem_append, Option.mem_toList, List.mem_singleton] at hp
    rcases hp with hp | rfl
    · -- the spent output, written again with the connected input
      exact ⟨p, hcw p (by simp [MappedInput.writes, hprev, hp]), rfl, rfl⟩
    · -- the input, with the body `SetDestination` keeps
      exact ⟨(c.inputID, c.input), hcw _ (by simp [MappedInput.writes]),
        congrArg (·.inputID) heq, connectInput_body hci⟩

/-- In a collision-free transaction, each input `initMux` connects is the fresh mapped input at its
index, connected to the mux at that position. -/
theorem connectInputs_connected (hcf : (generateTx h t mapped muxID connected).CollisionFree)
    (hfresh : ∀ (k : Nat) (m : MappedInput), mapped[k]? = some m → m.Fresh h k)
    (hconn : connectInputs ((muxID, .mux (initialMux mapped)) ::
      (mapped.flatMap MappedInput.writes).reverse) muxID (mapped.map (·.muxSource)) mapped =
        some connected)
    {k : Nat} {m : MappedInput} (hm : mapped[k]? = some m) :
    ∃ c, connected[k]? = some c ∧ ConnectedInput h muxID k m c := by
  obtain ⟨c, last, hc, heq, hci⟩ := connectInputs_pair hconn hm
  have hprev : c.prevout = m.prevout := congrArg (·.prevout) heq
  -- a spent output is found in the map with the body it is written with in the transaction
  have hw : ∀ p ∈ m.prevout, ∀ e', ((muxID, .mux (initialMux mapped)) ::
      (mapped.flatMap MappedInput.writes).reverse).lookup p.1 = some e' → e'.body = p.2.body := by
    intro p hp e' hl
    obtain ⟨q, hq, hk, hb⟩ := written_shadowed hconn _ (mem_of_lookup_eq_some hl)
    have hpmem : p ∈ (generateTx h t mapped muxID connected).entries :=
      Iff.mpr mem_generateTx_entries (.inr (.inr (.inr ⟨c, List.mem_of_getElem? hc,
        by simp [MappedInput.writes, hprev, Option.mem_def.mp hp]⟩)))
    rw [← hb]
    exact hcf q hq p hpmem hk
  obtain ⟨hbody, hdest⟩ := connectInput_fresh (hfresh k m hm) hw hci
  exact ⟨c, hc, hfresh k m hm, hprev, congrArg (·.inputID) heq, congrArg (·.muxSource) heq,
    hbody, hdest⟩

/-! ## Lookups in the transaction -/

section Connected

variable {k : Nat} {m c : MappedInput}

/-- The writes of a connected input are keyed by their `EntryID`s. -/
theorem ConnectedInput.keyed (hc : ConnectedInput h muxID k m c) :
    ∀ q ∈ c.writes, h.entryID q.2.body = q.1 := by
  intro q hq
  simp only [MappedInput.writes, List.mem_append, Option.mem_toList, List.mem_singleton] at hq
  rcases hq with hq | rfl
  · exact hc.fresh.keyed q (by simp [MappedInput.writes, ← hc.prevout, hq])
  · rw [hc.body, hc.inputID, hc.fresh.inputID]

theorem ConnectedInput.inputID_eq (hc : ConnectedInput h muxID k m c) :
    c.inputID = h.entryID c.input.body := by
  rw [hc.inputID, hc.fresh.inputID, hc.body]

/-- A write of a connected input is its input entry, or the output it spends, which names a
source. -/
theorem ConnectedInput.eq_of_isInput (hc : ConnectedInput h muxID k m c) :
    ∀ q ∈ c.writes,
      q.2.body.isInput = true ∨ q.2.body.source?.isSome ∧ q.2.body.isInput = false := by
  intro q hq
  simp only [MappedInput.writes, List.mem_append, Option.mem_toList, List.mem_singleton] at hq
  rcases hq with hq | rfl
  · have hs := hc.fresh.prevout_source q (by rw [← hc.prevout]; exact hq)
    obtain ⟨s, hs'⟩ := Option.isSome_iff_exists.mp hs
    exact .inr ⟨hs, EntryBody.isInput_of_source? hs'⟩
  · exact .inl (hc.body ▸ hc.fresh.isInput)

end Connected

theorem Entry.body_ne_of_source? {e e' : Entry} {s : ValueSource} (he : e.source? = some s)
    (he' : e'.source? = none) : e.body ≠ e'.body := by
  intro hb
  rw [Entry.source?_eq_body, hb, ← Entry.source?_eq_body, he'] at he
  cases he

/-- Every write of the transaction is keyed by its `EntryID`. -/
theorem generateTx_keyed (hmux : muxID = h.entryID (Entry.mux (initialMux mapped)).body)
    (hall : ∀ c ∈ connected, ∃ k m, ConnectedInput h muxID k m c) :
    (generateTx h t mapped muxID connected).Keyed h := by
  intro q hq
  rcases Iff.mp mem_generateTx_entries hq with rfl | hq | rfl | ⟨c, hc, hq⟩
  · rfl
  · obtain ⟨i, out, -, rfl⟩ := Iff.mp mem_mapOutputs hq
    rfl
  · exact hmux.symm
  · obtain ⟨k, m, hcm⟩ := hall c hc
    exact hcm.keyed q hq

/-- The mux is found under its ID: no other write has its body. -/
theorem generateTx_entry_mux (hcf : (generateTx h t mapped muxID connected).CollisionFree)
    (hall : ∀ c ∈ connected, ∃ k m, ConnectedInput h muxID k m c) :
    (generateTx h t mapped muxID connected).entry muxID =
      some (.mux (outputMux h t mapped muxID)) := by
  refine Tx.entry_eq_of_body_unique hcf (Iff.mpr mem_generateTx_entries (.inr (.inr (.inl rfl)))) ?_
  intro q hq hb
  rcases Iff.mp mem_generateTx_entries hq with rfl | hq | rfl | ⟨c, hc, hq⟩
  · cases hb
  · obtain ⟨i, out, -, rfl⟩ := Iff.mp mem_mapOutputs hq
    exact absurd hb (Entry.body_ne_of_source? (mapOutput_source? i out) rfl)
  · rfl
  · -- an input's body, or a spent output's, is not a mux's
    obtain ⟨k, m, hcm⟩ := hall c hc
    rcases hcm.eq_of_isInput q hq with hi | ⟨hs, -⟩
    · rw [hb] at hi
      cases hi
    · rw [hb] at hs
      cases hs

/-- A connected input is found under its ID: a write with its body is an input's, whose ID is the
`EntryID` of that body, and the inputs' IDs are distinct. -/
theorem generateTx_entry_input (hcf : (generateTx h t mapped muxID connected).CollisionFree)
    (hall : ∀ c ∈ connected, ∃ k m, ConnectedInput h muxID k m c)
    (hnodup : (connected.map (·.inputID)).Nodup) {c : MappedInput} (hc : c ∈ connected) :
    (generateTx h t mapped muxID connected).entry c.inputID = some c.input := by
  obtain ⟨k, m, hcm⟩ := hall c hc
  have hin : c.input.body.isInput = true := hcm.body ▸ hcm.fresh.isInput
  refine Tx.entry_eq_of_body_unique hcf
    (Iff.mpr mem_generateTx_entries (.inr (.inr (.inr ⟨c, hc, by simp [MappedInput.writes]⟩)))) ?_
  intro q hq hb
  rw [← hb] at hin
  rcases Iff.mp mem_generateTx_entries hq with rfl | hq | rfl | ⟨c', hc', hq⟩
  · cases hin
  · obtain ⟨i, out, -, rfl⟩ := Iff.mp mem_mapOutputs hq
    rw [EntryBody.isInput_of_source? (by rw [← Entry.source?_eq_body, mapOutput_source?])] at hin
    cases hin
  · cases hin
  · obtain ⟨k', m', hcm'⟩ := hall c' hc'
    rcases hcm'.eq_of_isInput q hq with - | ⟨-, hf⟩
    · -- the same body gives the same ID, and only one input has it
      have hq' : q = (c'.inputID, c'.input) := by
        simp only [MappedInput.writes, List.mem_append, Option.mem_toList,
          List.mem_singleton] at hq
        rcases hq with hq | rfl
        · have hs := hcm'.fresh.prevout_source q (by rw [← hcm'.prevout]; exact hq)
          obtain ⟨s, hs'⟩ := Option.isSome_iff_exists.mp hs
          rw [EntryBody.isInput_of_source? hs'] at hin
          cases hin
        · rfl
      subst hq'
      have hid : c'.inputID = c.inputID := by
        rw [hcm'.inputID_eq, hcm.inputID_eq]
        exact congrArg h.entryID hb
      rw [List.inj_on_of_nodup_map hnodup hc' hc hid]
    · rw [hf] at hin
      cases hin

/-- A result is found under its ID: the header is written under another, and among the results
only this one has its body, since the body names the output's position. -/
theorem generateTx_entry_result (hcf : (generateTx h t mapped muxID connected).CollisionFree)
    {i : Nat} {out : TxOutput} (hi : t.outputs[i]? = some out) :
    (generateTx h t mapped muxID connected).entry (h.entryID (mapOutput muxID i out).body) =
      some (mapOutput muxID i out) := by
  have hmem : (h.entryID (mapOutput muxID i out).body, mapOutput muxID i out) ∈
      mapOutputs h muxID t.outputs := Iff.mpr mem_mapOutputs ⟨i, out, hi, rfl⟩
  have hmemtx : (h.entryID (mapOutput muxID i out).body, mapOutput muxID i out) ∈
      (generateTx h t mapped muxID connected).entries :=
    Iff.mpr mem_generateTx_entries (.inr (.inl hmem))
  have hhdr : (h.entryID (mapOutput muxID i out).body == (generateTx h t mapped muxID connected).id)
      = false := by
    rw [beq_eq_false_iff_ne]
    exact Tx.key_ne_of_body_ne hcf hmemtx (Iff.mpr mem_generateTx_entries (.inl rfl))
      (Entry.body_ne_of_source? (mapOutput_source? i out) rfl)
  -- among the results, only this one has its body
  have hres : (mapOutputs h muxID t.outputs).reverse.lookup
      (h.entryID (mapOutput muxID i out).body) = some (mapOutput muxID i out) := by
    refine lookup_eq_of_forall (List.mem_reverse.mpr hmem) fun q hq hk => ?_
    obtain ⟨j, out', hj, rfl⟩ := Iff.mp mem_mapOutputs (List.mem_reverse.mp hq)
    have hb := hcf _ (Iff.mpr mem_generateTx_entries (.inr (.inl (List.mem_reverse.mp hq)))) _ hmemtx hk
    have hs := congrArg EntryBody.source? hb
    rw [← Entry.source?_eq_body, ← Entry.source?_eq_body, mapOutput_source?,
      mapOutput_source?] at hs
    simp only [Option.some.injEq, ValueSource.mk.injEq, true_and] at hs
    obtain ⟨-, rfl⟩ := hs
    rw [hi] at hj
    cases hj
    rfl
  unfold Tx.entry
  rw [generateTx_entries, List.lookup_cons, hhdr]
  simp only [List.lookup_append, hres, Option.some_or]

/-- A connected input gives its value: an issuance does, and a spend or veto input finds the output
it spends, written with it, with that value. -/
theorem ConnectedInput.spendsValue (hcf : (generateTx h t mapped muxID connected).CollisionFree)
    {k : Nat} {m c : MappedInput} (hcm : ConnectedInput h muxID k m c) (hc : c ∈ connected) :
    SpendsValue (generateTx h t mapped muxID connected) c.input m.muxSource.value := by
  have hprev : ∀ p ∈ m.prevout, p ∈ (generateTx h t mapped muxID connected).entries := by
    intro p hp
    refine Iff.mpr mem_generateTx_entries (.inr (.inr (.inr ⟨c, hc, ?_⟩)))
    simp [MappedInput.writes, hcm.prevout, Option.mem_def.mp hp]
  have hbody := hcm.body
  cases hcm.fresh with
  | issuance i hk =>
    cases hce : c.input <;> rw [hce] at hbody <;> first | exact trivial | cases hbody
  | spend s o hk hid =>
    cases hce : c.input <;> rw [hce] at hbody <;> try cases hbody
    simp only [Entry.body, EntryBody.spend.injEq] at hbody
    obtain ⟨o', ho', hsrc⟩ := Tx.originalOutput_of_mem hcf (hprev _ rfl)
    exact ⟨o', hbody ▸ ho', by rw [hsrc]⟩
  | vetoInput v o hk hid =>
    cases hce : c.input <;> rw [hce] at hbody <;> try cases hbody
    simp only [Entry.body, EntryBody.vetoInput.injEq] at hbody
    obtain ⟨o', ho', hsrc⟩ := Tx.voteOutput_of_mem hcf (hprev _ rfl)
    exact ⟨o', hbody ▸ ho', by rw [hsrc]⟩

/-- The mux's destination at index `i` is the result of output `i`, at position zero, with the
output's value. -/
theorem outputMux_destination {i : Nat} {d : ValueDestination} :
    (outputMux h t mapped muxID).witnessDestinations[i]? = some d ↔
      ∃ out, t.outputs[i]? = some out ∧
        d = ⟨h.entryID (mapOutput muxID i out).body, out.outputCommitment.assetAmount, 0⟩ := by
  simp only [outputMux, List.getElem?_zipWith, mapOutputs, List.getElem?_mapIdx]
  cases t.outputs[i]? <;> simp [resultDestination, eq_comm]

theorem outputMux_refs :
    (outputMux h t mapped muxID).witnessDestinations.map (·.ref) =
      (mapOutputs h muxID t.outputs).map (·.1) := by
  apply List.ext_getElem?
  intro i
  simp only [List.getElem?_map, outputMux, List.getElem?_zipWith, mapOutputs, List.getElem?_mapIdx]
  cases t.outputs[i]? <;> rfl

theorem outputMux_values :
    (outputMux h t mapped muxID).witnessDestinations.map (·.value) =
      t.outputs.map (·.outputCommitment.assetAmount) := by
  apply List.ext_getElem?
  intro i
  simp only [List.getElem?_map, outputMux, List.getElem?_zipWith, mapOutputs, List.getElem?_mapIdx]
  cases t.outputs[i]? <;> rfl

/-- The IDs of the mux, the results and the inputs are distinct: the first three kinds of write
differ in their bodies, two results in their positions, and two inputs by assumption. -/
theorem generateTx_ids_nodup (hcf : (generateTx h t mapped muxID connected).CollisionFree)
    (hall : ∀ c ∈ connected, ∃ k m, ConnectedInput h muxID k m c)
    (hnodup : (connected.map (·.inputID)).Nodup) :
    (muxID :: (mapOutputs h muxID t.outputs).map (·.1) ++ connected.map (·.inputID)).Nodup := by
  have hmux : (muxID, Entry.mux (outputMux h t mapped muxID)) ∈
      (generateTx h t mapped muxID connected).entries :=
    Iff.mpr mem_generateTx_entries (.inr (.inr (.inl rfl)))
  have hres : ∀ q ∈ mapOutputs h muxID t.outputs,
      q ∈ (generateTx h t mapped muxID connected).entries ∧ ∃ s, q.2.source? = some s := by
    intro q hq
    obtain ⟨i, out, -, rfl⟩ := Iff.mp mem_mapOutputs hq
    exact ⟨Iff.mpr mem_generateTx_entries (.inr (.inl hq)), _, mapOutput_source? i out⟩
  have hinp : ∀ c ∈ connected,
      (c.inputID, c.input) ∈ (generateTx h t mapped muxID connected).entries ∧
        c.input.body.isInput = true := by
    intro c hc
    obtain ⟨k, m, hcm⟩ := hall c hc
    exact ⟨Iff.mpr mem_generateTx_entries (.inr (.inr (.inr ⟨c, hc, by simp [MappedInput.writes]⟩))),
      hcm.body ▸ hcm.fresh.isInput⟩
  rw [List.cons_append, List.nodup_cons, List.nodup_append]
  refine ⟨?_, ⟨?_, hnodup, ?_⟩⟩
  · -- the mux's ID is neither a result's nor an input's
    simp only [List.mem_append, List.mem_map, not_or, not_exists, not_and]
    constructor
    · intro q hq hk
      obtain ⟨hq, s, hs⟩ := hres q hq
      exact Tx.key_ne_of_body_ne hcf hq hmux (Entry.body_ne_of_source? hs rfl) hk
    · intro c hc hk
      refine Tx.key_ne_of_body_ne hcf (hinp c hc).1 hmux (fun hb => ?_) hk
      have hi := (hinp c hc).2
      rw [hb] at hi
      cases hi
  · -- two results differ in their positions
    rw [List.nodup_iff_getElem?_ne_getElem?]
    intro i j hij hj heq
    rw [List.length_map, mapOutputs, List.length_mapIdx] at hj
    obtain ⟨outi, hi⟩ : ∃ o, t.outputs[i]? = some o := ⟨_, List.getElem?_eq_getElem (by omega)⟩
    obtain ⟨outj, hj'⟩ : ∃ o, t.outputs[j]? = some o := ⟨_, List.getElem?_eq_getElem hj⟩
    simp only [List.getElem?_map, mapOutputs, List.getElem?_mapIdx, hi, hj', Option.map_some,
      Option.some.injEq] at heq
    have hb := hcf _ (hres _ (Iff.mpr mem_mapOutputs ⟨i, outi, hi, rfl⟩)).1
      _ (hres _ (Iff.mpr mem_mapOutputs ⟨j, outj, hj', rfl⟩)).1 heq
    have hs := congrArg EntryBody.source? hb
    rw [← Entry.source?_eq_body, ← Entry.source?_eq_body, mapOutput_source?,
      mapOutput_source?] at hs
    simp only [Option.some.injEq, ValueSource.mk.injEq, true_and] at hs
    omega
  · -- a result's body names a source, an input's does not
    intro a ha b hb hab
    obtain ⟨q, hq, rfl⟩ := List.mem_map.mp ha
    obtain ⟨c, hc, rfl⟩ := List.mem_map.mp hb
    obtain ⟨hqmem, s, hs⟩ := hres q hq
    refine Tx.key_ne_of_body_ne hcf hqmem (hinp c hc).1 (fun hbody => ?_) hab
    have hi := (hinp c hc).2
    rw [← hbody, EntryBody.isInput_of_source? (by rw [← Entry.source?_eq_body]; exact hs)] at hi
    cases hi

end Generate

/-- `MapTx` wires a transaction without a coinbase input as validation expects, when its inputs'
IDs are distinct and the entry hash has no collision among its entries; and the mux takes the
inputs' values and gives the outputs'. -/
theorem mapTx_wired {t : TxData} {tx : Tx} (hmap : mapTx h t = some tx) (hcf : tx.CollisionFree)
    (hnodup : tx.inputIDs.Nodup)
    (hcb : ∀ input ∈ t.inputs, ∀ cb, input.typedInput ≠ some (.coinbase cb)) :
    ∃ muxID mux, Wired h tx muxID mux ∧
      mux.sources.map (·.value) = t.inputs.filterMap (TxInput.assetAmount h) ∧
      mux.witnessDestinations.map (·.value) = t.outputs.map (·.outputCommitment.assetAmount) := by
  obtain ⟨mapped, muxID, connected, hm, hi, rfl⟩ := Iff.mp mapTx_eq_some hmap
  obtain ⟨hmux, hconn⟩ := Iff.mp initMux_eq_some hi
  have hfresh : ∀ (k : Nat) (m : MappedInput), mapped[k]? = some m → m.Fresh h k := by
    intro k m hkm
    obtain ⟨input, hin, hmi⟩ := (mapInputs_getElem? hm).2 k m hkm
    exact (mapInput_fresh (hcb input (List.mem_of_getElem? hin)) (by simpa using hmi)).1
  -- each connected input, with the mapped input at its index
  have hpair : ∀ (k : Nat) (c : MappedInput), connected[k]? = some c →
      ∃ m, mapped[k]? = some m ∧ ConnectedInput h muxID k m c := by
    intro k c hc
    obtain ⟨m, -, hkm, -, -⟩ := (connectInputs_getElem? hconn).2 k c hc
    obtain ⟨c', hc', hcm⟩ := connectInputs_connected hcf hfresh hconn hkm
    rw [hc] at hc'
    cases hc'
    exact ⟨m, hkm, hcm⟩
  have hall : ∀ c ∈ connected, ∃ k m, ConnectedInput h muxID k m c := by
    intro c hc
    obtain ⟨k, hk⟩ := List.mem_iff_getElem?.mp hc
    obtain ⟨m, -, hcm⟩ := hpair k c hk
    exact ⟨k, m, hcm⟩
  have hids : connected.map (·.inputID) = mapped.map (·.inputID) := by
    apply List.ext_getElem?
    intro k
    rw [List.getElem?_map, List.getElem?_map]
    cases hc : connected[k]? with
    | some c =>
      obtain ⟨m, hkm, hcm⟩ := hpair k c hc
      rw [hkm, Option.map_some, Option.map_some, hcm.inputID]
    | none =>
      have hlen := (connectInputs_getElem? hconn).1
      rw [List.getElem?_eq_none_iff] at hc
      rw [(List.getElem?_eq_none_iff).mpr (hlen ▸ hc)]
  have hnodup' : (connected.map (·.inputID)).Nodup := hids ▸ hnodup
  refine ⟨muxID, outputMux h t mapped muxID,
    ⟨generateTx_keyed hmux hall, generateTx_entry_mux hcf hall,
      by rw [generateTx_resultIds, outputMux_refs], ?_, ?_, ?_⟩,
    by rw [show (outputMux h t mapped muxID).sources = mapped.map (·.muxSource) from rfl,
      List.map_map]; exact mapInputs_values hcb hm, outputMux_values⟩
  · intro i d hd
    obtain ⟨out, hout, rfl⟩ := Iff.mp outputMux_destination hd
    exact ⟨rfl, _, generateTx_entry_result hcf hout, mapOutput_source? i out⟩
  · intro k s hs
    have hs' : (mapped.map (·.muxSource))[k]? = some s := hs
    rw [List.getElem?_map, Option.map_eq_some_iff] at hs'
    obtain ⟨m, hkm, rfl⟩ := hs'
    obtain ⟨c, hc, hcm⟩ := connectInputs_connected hcf hfresh hconn hkm
    have hcmem := List.mem_of_getElem? hc
    have hsrc := hcm.fresh.muxSource
    refine ⟨by rw [hsrc], c.input, ?_, hcm.destination, hcm.spendsValue hcf hcmem⟩
    rw [hsrc, ← hcm.inputID]
    exact generateTx_entry_input hcf hall hnodup' hcmem
  · rw [outputMux_refs]
    have hsrc : (outputMux h t mapped muxID).sources.map (·.ref) = connected.map (·.inputID) := by
      rw [hids]
      show (mapped.map (·.muxSource)).map (·.ref) = _
      rw [List.map_map]
      apply List.map_congr_left
      intro m hm'
      obtain ⟨k, hk⟩ := List.mem_iff_getElem?.mp hm'
      exact congrArg ValueSource.ref (hfresh k m hk).muxSource
    rw [hsrc]
    exact generateTx_ids_nodup hcf hall hnodup'

end Map

end KuskCore.Bc
