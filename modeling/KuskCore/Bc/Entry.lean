import KuskCore.Types.Commitment

/-!
# Transaction entries

`protocol/bc`. `MapTx` turns a transaction into a graph of entries, each addressed by its
`EntryID`: the header, a mux, one entry per input (with the output it spends, recalled as an entry
of its own) and one per output. Entries point at each other through `ValueSource`s and
`ValueDestination`s, which name an entry by its ID, a value and a position.

`EntryID` hashes the entry's type and the fields its `writeForHash` writes, not the witness fields
that `MapTx` fills in after the ID is taken: `Entry.body` is what is hashed, and the hash itself is
a parameter, `Hasher.entryID`. The other hashes `MapTx` and validation compute, SHA3-256 of raw
bytes and `AssetDefinition.ComputeAssetID`, are parameters too.

The pointers `MapTx` sets are never `nil`; a witness destination is, until `SetDestination` sets
it, so it is an `Option`.
-/

namespace KuskCore.Bc

open KuskCore.Types

/-- `bc.Program`. -/
structure Program where
  vmVersion : Nat
  code : List UInt8
  deriving DecidableEq

/-- `bc.ValueSource`: the value comes from position `position` of entry `ref`. -/
structure ValueSource where
  ref : Hash
  value : AssetAmount
  position : Nat
  deriving DecidableEq

/-- `bc.ValueDestination`: the value goes to position `position` of entry `ref`. -/
structure ValueDestination where
  ref : Hash
  value : AssetAmount
  position : Nat
  deriving DecidableEq

/-- `bc.AssetDefinition`: the issuance program and the hash of the definition's data. -/
structure AssetDefinition where
  issuanceProgram : Program
  data : Hash
  deriving DecidableEq

/-- `bc.TxHeader`. -/
structure TxHeader where
  version : Nat
  serializedSize : Nat
  timeRange : Nat
  resultIds : List Hash
  deriving DecidableEq

/-- `bc.Mux`: its sources, in input order, and its destinations, in output order. -/
structure Mux where
  sources : List ValueSource
  program : Program
  witnessDestinations : List ValueDestination
  deriving DecidableEq

/-- `bc.Coinbase`. -/
structure Coinbase where
  witnessDestination : Option ValueDestination
  arbitrary : List UInt8
  deriving DecidableEq

/-- `bc.OriginalOutput`. -/
structure OriginalOutput where
  source : ValueSource
  controlProgram : Program
  ordinal : Nat
  stateData : List (List UInt8)
  deriving DecidableEq

/-- `bc.VoteOutput`. -/
structure VoteOutput where
  source : ValueSource
  controlProgram : Program
  ordinal : Nat
  vote : List UInt8
  stateData : List (List UInt8)
  deriving DecidableEq

/-- `bc.Retirement`. -/
structure Retirement where
  source : ValueSource
  ordinal : Nat
  deriving DecidableEq

/-- `bc.Issuance`. -/
structure Issuance where
  nonceHash : Hash
  value : AssetAmount
  witnessDestination : Option ValueDestination
  witnessAssetDefinition : AssetDefinition
  witnessArguments : List (List UInt8)
  ordinal : Nat
  deriving DecidableEq

/-- `bc.Spend`. -/
structure Spend where
  spentOutputId : Hash
  witnessDestination : Option ValueDestination
  witnessArguments : List (List UInt8)
  ordinal : Nat
  deriving DecidableEq

/-- `bc.VetoInput`. -/
structure VetoInput where
  spentOutputId : Hash
  witnessDestination : Option ValueDestination
  witnessArguments : List (List UInt8)
  ordinal : Nat
  deriving DecidableEq

/-- The implementations of `bc.Entry` that a transaction holds. -/
inductive Entry where
  | txHeader (h : TxHeader)
  | mux (m : Mux)
  | coinbase (c : Coinbase)
  | originalOutput (o : OriginalOutput)
  | voteOutput (o : VoteOutput)
  | retirement (r : Retirement)
  | issuance (i : Issuance)
  | spend (s : Spend)
  | vetoInput (v : VetoInput)
  deriving DecidableEq

/-- What `EntryID` hashes of an entry: its type and the fields its `writeForHash` writes. -/
inductive EntryBody where
  | txHeader (version timeRange : Nat) (resultIds : List Hash)
  | mux (sources : List ValueSource) (program : Program)
  | coinbase (arbitrary : List UInt8)
  | originalOutput (source : ValueSource) (controlProgram : Program)
      (stateData : List (List UInt8))
  | voteOutput (source : ValueSource) (controlProgram : Program) (vote : List UInt8)
      (stateData : List (List UInt8))
  | retirement (source : ValueSource)
  | issuance (nonceHash : Hash) (value : AssetAmount)
  | spend (spentOutputId : Hash)
  | vetoInput (spentOutputId : Hash)
  deriving DecidableEq

/-- The `writeForHash` of each entry type. -/
def Entry.body : Entry → EntryBody
  | .txHeader h => .txHeader h.version h.timeRange h.resultIds
  | .mux m => .mux m.sources m.program
  | .coinbase c => .coinbase c.arbitrary
  | .originalOutput o => .originalOutput o.source o.controlProgram o.stateData
  | .voteOutput o => .voteOutput o.source o.controlProgram o.vote o.stateData
  | .retirement r => .retirement r.source
  | .issuance i => .issuance i.nonceHash i.value
  | .spend s => .spend s.spentOutputId
  | .vetoInput v => .vetoInput v.spentOutputId

/-- `typ()`: the name of the entry's type, which `EntryID` hashes before the body. -/
def EntryBody.typ : EntryBody → String
  | .txHeader .. => "txheader"
  | .mux .. => "mux1"
  | .coinbase .. => "coinbase1"
  | .originalOutput .. => "originalOutput1"
  | .voteOutput .. => "voteOutput1"
  | .retirement .. => "retirement1"
  | .issuance .. => "issuance1"
  | .spend .. => "spend1"
  | .vetoInput .. => "vetoInput1"

/-- The hashes entries are built and checked with: `bc.EntryID` of an entry's body, SHA3-256 of
raw bytes, and `AssetDefinition.ComputeAssetID`. -/
structure Hasher where
  entryID : EntryBody → Hash
  sha3 : List UInt8 → Hash
  computeAssetID : AssetDefinition → Hash

/-- `bc.Tx`: the header, its ID, the map `Entries` as the list of its writes, newest first, and the
IDs of the inputs and of the outputs they spend. -/
structure Tx where
  txHeader : TxHeader
  id : Hash
  entries : List (Hash × Entry)
  inputIDs : List Hash
  spentOutputIDs : List Hash

/-- `tx.Entries[id]`: the entry written last under `id`. -/
def Tx.entry (tx : Tx) (id : Hash) : Option Entry := tx.entries.lookup id

/-- `bc.ErrMissingEntry` and `bc.ErrEntryType`. -/
inductive EntryError where
  | missingEntry
  | entryType
  deriving DecidableEq

/-- `Tx.OriginalOutput`. -/
def Tx.originalOutput (tx : Tx) (id : Hash) : Except EntryError OriginalOutput :=
  match tx.entry id with
  | some (.originalOutput o) => .ok o
  | some _ => .error .entryType
  | none => .error .missingEntry

/-- `Tx.VoteOutput`. -/
def Tx.voteOutput (tx : Tx) (id : Hash) : Except EntryError VoteOutput :=
  match tx.entry id with
  | some (.voteOutput o) => .ok o
  | some _ => .error .entryType
  | none => .error .missingEntry

/-- No two writes of `Entries` under one ID hash different bodies: the entry hash has no collision
among the entries of the transaction. -/
def Tx.CollisionFree (tx : Tx) : Prop :=
  ∀ p ∈ tx.entries, ∀ q ∈ tx.entries, p.1 = q.1 → p.2.body = q.2.body

instance (tx : Tx) : Decidable tx.CollisionFree :=
  inferInstanceAs (Decidable (∀ p ∈ tx.entries, ∀ q ∈ tx.entries, p.1 = q.1 → p.2.body = q.2.body))

/-- The source of a result entry: an original or vote output, or a retirement. -/
def Entry.source? : Entry → Option ValueSource
  | .originalOutput o => some o.source
  | .voteOutput o => some o.source
  | .retirement r => some r.source
  | _ => none

/-- The destination of an input entry. -/
def Entry.destination? : Entry → Option ValueDestination
  | .issuance i => i.witnessDestination
  | .spend s => s.witnessDestination
  | .vetoInput v => v.witnessDestination
  | .coinbase c => c.witnessDestination
  | _ => none

section Lookup

/-- What a lookup finds is a write of the list. -/
theorem mem_of_lookup_eq_some {α β : Type} [BEq α] [LawfulBEq α] {l : List (α × β)} {k : α}
    {b : β} (hl : l.lookup k = some b) : (k, b) ∈ l := by
  obtain ⟨l₁, l₂, rfl, -⟩ := List.lookup_eq_some_iff.mp hl
  simp

variable {tx : Tx}

/-- In a collision-free transaction, an entry is found under the ID it was written with when every
newer write holds an entry of another body. -/
theorem Tx.entry_eq_of_newer (hcf : tx.CollisionFree) {newer older : List (Hash × Entry)}
    {id : Hash} {e : Entry} (hl : tx.entries = newer ++ (id, e) :: older)
    (hb : ∀ q ∈ newer, q.2.body ≠ e.body) : tx.entry id = some e := by
  rw [Tx.entry, List.lookup_eq_some_iff]
  refine ⟨newer, older, hl, fun q hq => ?_⟩
  have hmem : (id, e) ∈ tx.entries := by simp [hl]
  have hq' : q ∈ tx.entries := by simp [hl, hq]
  rw [bne_iff_ne, ne_eq]
  intro hid
  exact hb q hq (hcf q hq' (id, e) hmem hid.symm)

/-- In a collision-free transaction, the entry found under a written ID has the body of the
write. -/
theorem Tx.entry_body_of_mem (hcf : tx.CollisionFree) {p : Hash × Entry} (hp : p ∈ tx.entries) :
    ∃ e, tx.entry p.1 = some e ∧ e.body = p.2.body := by
  have hsome : (tx.entries.lookup p.1).isSome :=
    List.lookup_isSome_iff.mpr ⟨p, hp, beq_self_eq_true _⟩
  obtain ⟨e, he⟩ := Option.isSome_iff_exists.mp hsome
  exact ⟨e, he, hcf _ (mem_of_lookup_eq_some he) p hp rfl⟩

/-- Two IDs of a collision-free transaction's writes are different when the bodies are. -/
theorem Tx.key_ne_of_body_ne (hcf : tx.CollisionFree) {p q : Hash × Entry} (hp : p ∈ tx.entries)
    (hq : q ∈ tx.entries) (hb : p.2.body ≠ q.2.body) : p.1 ≠ q.1 :=
  fun hid => hb (hcf p hp q hq hid)

/-- In a collision-free transaction, a write is the one found under its ID when no other write
holds an entry of its body. -/
theorem Tx.entry_eq_of_body_unique (hcf : tx.CollisionFree) {id : Hash} {e : Entry}
    (hmem : (id, e) ∈ tx.entries) (huniq : ∀ q ∈ tx.entries, q.2.body = e.body → q.2 = e) :
    tx.entry id = some e := by
  obtain ⟨e', he', hbody⟩ := Tx.entry_body_of_mem hcf hmem
  rw [he']
  exact congrArg some (huniq _ (mem_of_lookup_eq_some he') hbody)

end Lookup

end KuskCore.Bc
