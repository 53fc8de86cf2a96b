import KuskCore.Validation.Tx
import KuskCore.Bc.Wiring
import KuskCore.StateRun

/-!
# Runs of the validation traversal

`checkValid` walks a transaction's entry graph with a memo; what it does to a transaction that
`MapTx` built depends only on the graph's shape, `Wired`. From the header it checks each result;
the first result's source is the mux, whose check computes the parity of its sources and
destinations and sets the gas, checks every source, which runs each input's program in the VM,
and charges the storage; every later result finds the mux in the cache. So the traversal succeeds
exactly when each result's own checks pass and the mux's gas computation, `muxGas`, does, and the
gas state it returns is the one `muxGas` computes.

The spec lemmas of the pieces come first (the memo, the gas updates, `checkValidSrc`), then fuel:
more fuel never changes a run that did not run out (`checkValid_extends`), so a run that succeeds
at some fuel succeeds with enough fuel for the lemmas below. The run of a wired transaction is
built up from its leaves: an input, the sources' loop, the mux, a result, the results' loop, the
header, and `validateTx`.
-/

namespace KuskCore.Validation

open KuskCore.Bc KuskCore.Types KuskCore.Vm EStateM

/-! ## The pieces -/

section Pieces

variable {α : Type} {s s' : ValState}

theorem liftExcept_run_eq_ok {x : Except ValidationError α} {a : α} :
    (liftExcept x).run s = .ok a s' ↔ x = .ok a ∧ s = s' := by
  cases x <;> simp [liftExcept]

theorem modifyGas_run_eq_ok {f : GasState → Except ValidationError GasState} {u : PUnit} :
    (modifyGas f).run s = .ok u s' ↔ ∃ g, f s.gas = .ok g ∧ s' = { s with gas := g } := by
  simp only [modifyGas, run_bind_eq_ok, run_get_eq_ok, liftExcept_run_eq_ok, run_modify_eq_ok]
  constructor
  · rintro ⟨_, _, ⟨rfl, rfl⟩, g, _, ⟨hg, rfl⟩, rfl⟩
    exact ⟨g, hg, rfl⟩
  · rintro ⟨g, hg, rfl⟩
    exact ⟨s, s, ⟨rfl, rfl⟩, g, s, ⟨hg, rfl⟩, rfl⟩

/-- A miss: the body runs, and its success is recorded under the entry's ID. -/
theorem memo_run_of_miss {id : Hash} {body : ValM Unit} (hc : s.cache.lookup id = none)
    {u : Unit} :
    (memo id body).run s = .ok u s' ↔
      ∃ s₁, body.run s = .ok () s₁ ∧ s' = { s₁ with cache := (id, none) :: s₁.cache } := by
  rw [memo, run_bind_of_ok (show (get : ValM ValState).run s = .ok s s from rfl)]
  simp only [hc]
  rw [run_tryCatch_eq_ok]
  constructor
  · rintro (hb | ⟨e, t, -, hh⟩)
    · obtain ⟨⟨⟩, s₁, hb, hm⟩ := Iff.mp run_bind_eq_ok hb
      exact ⟨s₁, hb, (Iff.mp run_modify_eq_ok hm).symm⟩
    · -- the handler records the error and throws it again
      obtain ⟨_, _, -, hthrow⟩ := Iff.mp run_bind_eq_ok hh
      exact absurd hthrow run_throw_ne_ok
  · rintro ⟨s₁, hb, rfl⟩
    exact .inl (Iff.mpr run_bind_eq_ok ⟨(), s₁, hb, Iff.mpr run_modify_eq_ok rfl⟩)

theorem lookup_cons_of_ne {cache : List (Hash × Option ValidationError)} {k a : Hash}
    {b : Option ValidationError} (hne : k ≠ a) : ((a, b) :: cache).lookup k = cache.lookup k := by
  simp [List.lookup_cons, beq_false_of_ne hne]

/-- A hit on a recorded success returns at once. -/
theorem memo_run_of_hit {id : Hash} {body : ValM Unit} (hc : s.cache.lookup id = some none) :
    (memo id body).run s = .ok () s := by
  simp only [memo, run_bind, run_get, hc]
  rfl

/-- `checkValidSrc` passes when the entry the source names is found and passes its check, and
gives its value to this entry at this position. -/
theorem checkValidSrc_run_eq_ok {check : ValidationState → Option Entry → ValM Unit}
    {vstate : ValidationState} {src : ValueSource} :
    (checkValidSrc check vstate src).run s = .ok () s' ↔
      ∃ e, vstate.tx.entry src.ref = some e ∧
        (check { vstate with entryID := src.ref } (some e)).run s = .ok () s' ∧
        ∃ dest, sourceDestination src.position e = .ok dest ∧ dest.ref = vstate.entryID ∧
          dest.position = vstate.sourcePos ∧ dest.value = src.value := by
  unfold checkValidSrc
  cases hE : vstate.tx.entry src.ref with
  | none => simp
  | some e =>
    simp only [Option.some.injEq, exists_eq_left', run_bind_eq_ok, liftExcept_run_eq_ok,
      run_ite_eq_ok, run_throw_ne_ok, run_pure_eq_ok, false_and, and_false, exists_false,
      false_or, not_not, true_and, ne_eq]
    constructor
    · rintro ⟨⟨⟩, s₁, hc, dest, _, ⟨hd, rfl⟩, hr, hp, hv, rfl⟩
      exact ⟨hc, dest, hd, hr, hp, hv⟩
    · rintro ⟨hc, dest, hd, hr, hp, hv⟩
      exact ⟨(), s', hc, dest, s', ⟨hd, rfl⟩, hr, hp, hv, rfl⟩

end Pieces

/-! ## Fuel -/

section Fuel

variable (h : Hasher) (converter : Bytes → Option Bytes)
  (verify : Context → Int → Option (Int × Option VMError))

theorem memo_extends {id : Hash} {body body' : ValM Unit} (hb : Extends .outOfFuel body body') :
    Extends .outOfFuel (memo id body) (memo id body') := by
  unfold memo
  refine extends_bind (extends_refl _) fun s => ?_
  split
  · exact extends_refl _
  · exact extends_refl _
  · -- the handler records the error and throws it again
    exact extends_tryCatch (extends_bind hb fun _ => extends_refl _) fun s =>
      ⟨{ s with cache := (id, some .outOfFuel) :: s.cache }, rfl⟩

variable {check check' : ValidationState → Option Entry → ValM Unit}

theorem checkValidSrc_extends (hc : ∀ vs e, Extends .outOfFuel (check vs e) (check' vs e))
    (vstate : ValidationState) (src : ValueSource) :
    Extends .outOfFuel (checkValidSrc check vstate src) (checkValidSrc check' vstate src) := by
  unfold checkValidSrc
  cases vstate.tx.entry src.ref with
  | none => exact extends_refl _
  | some e => exact extends_bind (hc _ _) fun _ => extends_refl _

theorem checkValidBody_extends (hc : ∀ vs e, Extends .outOfFuel (check vs e) (check' vs e))
    (vs : ValidationState) (e : Option Entry) :
    Extends .outOfFuel (checkValidBody h converter verify check vs e)
      (checkValidBody h converter verify check' vs e) := by
  rcases e with _ | ⟨hdr | m | c | o | o | r | i | s | v⟩
  · exact extends_refl _
  · exact extends_bind (extends_forM (fun _ => hc _ _) _) fun _ => extends_refl _
  · refine extends_bind (extends_refl _) fun _ => extends_bind (extends_refl _) fun _ =>
      extends_bind (extends_refl _) fun _ => extends_bind ?_ fun _ => extends_refl _
    exact extends_forM (fun ⟨src, i⟩ => checkValidSrc_extends hc _ src) _
  · exact extends_refl _
  · exact checkValidSrc_extends hc _ _
  · exact extends_ite
      (extends_bind (extends_refl _) fun _ =>
        extends_bind (checkValidSrc_extends hc _ _) fun _ => extends_refl _)
      (extends_bind (checkValidSrc_extends hc _ _) fun _ => extends_refl _)
  · exact checkValidSrc_extends hc _ _
  · exact extends_refl _
  · exact extends_refl _
  · exact extends_refl _

theorem checkValid_extends_succ :
    ∀ (n : Nat) (vs : ValidationState) (e : Option Entry),
      Extends .outOfFuel (checkValid h converter verify n vs e)
        (checkValid h converter verify (n + 1) vs e)
  | 0, _, _ => extends_throw _
  | n + 1, vs, e =>
    memo_extends (checkValidBody_extends h converter verify (checkValid_extends_succ n) vs e)

/-- More fuel never changes a run of `checkValid` that did not run out. -/
theorem checkValid_extends {n n' : Nat} (hle : n ≤ n') (vs : ValidationState) (e : Option Entry) :
    Extends .outOfFuel (checkValid h converter verify n vs e)
      (checkValid h converter verify n' vs e) :=
  extends_of_le (fun k => checkValid_extends_succ h converter verify k vs e) hle

end Fuel

/-! ## What the traversal computes -/

section Spec

variable (h : Hasher) (converter : Bytes → Option Bytes)
  (verify : Context → Int → Option (Int × Option VMError))

/-- What `checkValid` does to the gas state on an issuance, a spend or a veto input whose
destination checks pass: the checks that read only the transaction, then the VM run. -/
def inputGas (vs : ValidationState) : Entry → GasState → Except ValidationError GasState
  | .issuance i, g =>
    if h.computeAssetID i.witnessAssetDefinition ≠ i.value.assetId then .error .mismatchedAssetID
    else
      verifyProgram h converter verify vs (.issuance i) i.witnessAssetDefinition.issuanceProgram []
        i.witnessArguments g
  | .spend s, g => do
    let o ← (vs.tx.originalOutput s.spentOutputId).mapError .entry
    verifyProgram h converter verify vs (.spend s) o.controlProgram o.stateData s.witnessArguments g
  | .vetoInput v, g => do
    let o ← (vs.tx.voteOutput v.spentOutputId).mapError .entry
    if o.vote.length ≠ 64 then throw .votePubKey
    verifyProgram h converter verify vs (.vetoInput v) o.controlProgram o.stateData
      v.witnessArguments g
  | _, _ => .error .unexpectedEntry

/-- `inputGas` of the entry a mux source names. -/
def sourceGas (vs : ValidationState) (g : GasState) (src : ValueSource) :
    Except ValidationError GasState :=
  match vs.tx.entry src.ref with
  | some e => inputGas h converter verify vs e g
  | none => .error (.entry .missingEntry)

/-- The gas a mux sets and charges from the gas state `g`: its parity sets the gas, each source's
VM run uses some, and the storage is charged. -/
def muxGas (vs : ValidationState) (mux : Mux) (g : GasState) : Except ValidationError GasState := do
  let parity ← addSources ∅ mux.sources >>= (subDestinations · mux.witnessDestinations)
  let g ← parityGas (GoInt.int64 vs.tx.txHeader.serializedSize) parity g
  let g ← mux.sources.foldlM (sourceGas h converter verify vs) g
  g.chargeStorageGas

/-- `NewTxVMContext` reads the validation state's block and transaction only. -/
theorem verifyProgram_congr {vs vs' : ValidationState} (hb : vs.block = vs'.block)
    (ht : vs.tx = vs'.tx) :
    verifyProgram h converter verify vs = verifyProgram h converter verify vs' := by
  funext entry prog stateData args g
  simp only [verifyProgram, newTxVMContext, hb, ht]

theorem inputGas_congr {vs vs' : ValidationState} (hb : vs.block = vs'.block)
    (ht : vs.tx = vs'.tx) : inputGas h converter verify vs = inputGas h converter verify vs' := by
  funext e g
  cases e <;> simp only [inputGas, verifyProgram_congr h converter verify hb ht, ht]

theorem sourceGas_congr {vs vs' : ValidationState} (hb : vs.block = vs'.block)
    (ht : vs.tx = vs'.tx) : sourceGas h converter verify vs = sourceGas h converter verify vs' := by
  funext g src
  simp only [sourceGas, inputGas_congr h converter verify hb ht, ht]

theorem muxGas_eq_ok {vs : ValidationState} {mux : Mux} {g g' : GasState} :
    muxGas h converter verify vs mux g = .ok g' ↔ ∃ p g₁ g₂,
      (addSources ∅ mux.sources >>= (subDestinations · mux.witnessDestinations)) = .ok p ∧
      parityGas (GoInt.int64 vs.tx.txHeader.serializedSize) p g = .ok g₁ ∧
      mux.sources.foldlM (sourceGas h converter verify vs) g₁ = .ok g₂ ∧
      g₂.chargeStorageGas = .ok g' := by
  unfold muxGas
  constructor
  · intro hg
    obtain ⟨p, hp, hg⟩ := Iff.mp Except.bind_eq_ok hg
    obtain ⟨g₁, hg₁, hg⟩ := Iff.mp Except.bind_eq_ok hg
    obtain ⟨g₂, hg₂, hg⟩ := Iff.mp Except.bind_eq_ok hg
    exact ⟨p, g₁, g₂, hp, hg₁, hg₂, hg⟩
  · rintro ⟨p, g₁, g₂, hp, hg₁, hg₂, hg⟩
    exact Iff.mpr Except.bind_eq_ok ⟨p, hp, Iff.mpr Except.bind_eq_ok ⟨g₁, hg₁,
      Iff.mpr Except.bind_eq_ok ⟨g₂, hg₂, hg⟩⟩⟩

theorem muxGas_congr {vs vs' : ValidationState} (hb : vs.block = vs'.block)
    (ht : vs.tx = vs'.tx) : muxGas h converter verify vs = muxGas h converter verify vs' := by
  funext mux g
  simp only [muxGas, sourceGas_congr h converter verify hb ht, ht]

end Spec

/-- What `checkValid` checks of a result besides its source: a vote output's key, amount and
asset. -/
def ResultChecks : Entry → Prop
  | .voteOutput o => o.vote.length = 64 ∧ minVoteOutputAmount ≤ o.source.value.amount ∧
      o.source.value.assetId = kuskAssetID
  | _ => True

/-- The cache after the entries with IDs `ids` passed their checks, in this order. -/
def checkedCache (ids : List Hash) (cache : List (Hash × Option ValidationError)) :
    List (Hash × Option ValidationError) :=
  (ids.map fun id => (id, none)).reverse ++ cache

@[simp] theorem checkedCache_nil (cache : List (Hash × Option ValidationError)) :
    checkedCache [] cache = cache := rfl

theorem checkedCache_cons (id : Hash) (ids : List Hash)
    (cache : List (Hash × Option ValidationError)) :
    checkedCache (id :: ids) cache = checkedCache ids ((id, none) :: cache) := by
  simp [checkedCache]

theorem checkedCache_append (ids ids' : List Hash) (cache : List (Hash × Option ValidationError)) :
    checkedCache (ids ++ ids') cache = checkedCache ids' (checkedCache ids cache) := by
  simp [checkedCache]

theorem lookup_checkedCache (ids : List Hash) (cache : List (Hash × Option ValidationError))
    (k : Hash) :
    (checkedCache ids cache).lookup k = if k ∈ ids then some none else cache.lookup k := by
  induction ids generalizing cache with
  | nil => simp
  | cons id ids ih =>
    rw [checkedCache_cons, ih]
    by_cases hk : k = id
    · simp [hk]
    · have hb : (k == id) = false := beq_false_of_ne hk
      simp [hk, List.lookup_cons, hb]


/-! ## The run of a wired transaction -/

section Wired

variable (h : Hasher) (converter : Bytes → Option Bytes)
  (verify : Context → Int → Option (Int × Option VMError))
variable {tx : Tx} {muxID : Hash} {mux : Mux} {vs : ValidationState} {st st' : ValState}

/-- An entry found under an ID of a keyed transaction is checked under that ID. -/
theorem entryIDOf_of_entry (hk : tx.Keyed h) {id : Hash} {e : Entry}
    (he : tx.entry id = some e) : entryIDOf h (some e) = id :=
  hk _ (mem_of_lookup_eq_some he)

/-- The mux takes a source's value back from its input entry, at the source's index. -/
theorem checkValidDest_mux_source (hw : Wired h tx muxID mux) (hvs : vs.tx = tx) {k : Nat}
    {src : ValueSource} (hk : mux.sources[k]? = some src) (hid : vs.entryID = src.ref)
    (hpos : vs.destPos = 0) :
    checkValidDest vs (some ⟨muxID, src.value, k⟩) = .ok () := by
  have hpos0 := (hw.input k src hk).1
  simp [checkValidDest, hvs, hw.mux_found, hk, hid, hpos, hpos0]
  rfl

/-- A result takes its value from the mux, at the result's index. -/
theorem checkValidDest_result (hw : Wired h tx muxID mux) (hvs : vs.tx = tx) {i : Nat}
    {d : ValueDestination} (hd : mux.witnessDestinations[i]? = some d) (hid : vs.entryID = muxID)
    (hpos : vs.destPos = i) : checkValidDest vs (some d) = .ok () := by
  obtain ⟨hpos0, e, he, hsrc⟩ := hw.result i d hd
  cases e <;> simp only [Entry.source?, reduceCtorEq, Option.some.injEq] at hsrc <;>
    simp [checkValidDest, hvs, he, hpos0, hsrc, hid, hpos] <;> rfl

theorem sourceDestination_of_destination? {e : Entry} {d : ValueDestination}
    (he : e.destination? = some d) : sourceDestination 0 e = .ok d := by
  cases e <;> simp_all [sourceDestination, inputDestination, Entry.destination?]

/-- An input entry, checked for the first time from the mux's source `k`, passes when its own
checks and its VM run do, which set the gas state, and is recorded in the cache. -/
theorem checkValid_input (hw : Wired h tx muxID mux) (hvs : vs.tx = tx) {k : Nat}
    {src : ValueSource} (hk : mux.sources[k]? = some src) (hid : vs.entryID = src.ref) {e : Entry}
    (he : tx.entry src.ref = some e) (hc : st.cache.lookup src.ref = none) (n : Nat) :
    (checkValid h converter verify (n + 1) vs (some e)).run st = .ok () st' ↔
      ∃ g, inputGas h converter verify vs e st.gas = .ok g ∧
        st' = ⟨g, (src.ref, none) :: st.cache⟩ := by
  obtain ⟨-, e', he', hdest, hspends⟩ := hw.input k src hk
  rw [he] at he'
  cases he'
  rw [checkValid, entryIDOf_of_entry h hw.keyed he, memo_run_of_miss hc]
  have hback : checkValidDest { vs with destPos := 0 } (some ⟨muxID, src.value, k⟩) = .ok () :=
    checkValidDest_mux_source h hw (show ({ vs with destPos := 0 } : ValidationState).tx = tx from hvs)
      hk hid rfl
  cases e with
  | issuance i =>
    simp only [Entry.destination?] at hdest
    simp only [checkValidBody, inputGas, hdest, hback, run_bind_eq_ok, run_ite_eq_ok,
      modifyGas_run_eq_ok, liftExcept_run_eq_ok, run_throw_ne_ok]
    by_cases hA : h.computeAssetID i.witnessAssetDefinition = i.value.assetId
    · simp [hA]
    · simp [hA]
  | spend s =>
    obtain ⟨o, ho, hov⟩ := hspends
    rw [← hvs] at ho
    simp only [Entry.destination?] at hdest
    simp only [checkValidBody, inputGas, ho, hdest, hback, Except.mapError,
      run_bind_eq_ok, run_ite_eq_ok, modifyGas_run_eq_ok, liftExcept_run_eq_ok, run_throw_ne_ok]
    simp [bind, Except.bind, hov]
  | vetoInput v =>
    obtain ⟨o, ho, hov⟩ := hspends
    rw [← hvs] at ho
    simp only [Entry.destination?] at hdest
    simp only [checkValidBody, inputGas, ho, hdest, hback, Except.mapError,
      run_bind_eq_ok, run_ite_eq_ok, modifyGas_run_eq_ok, liftExcept_run_eq_ok, run_throw_ne_ok]
    by_cases hvote : o.vote.length = 64
    · simp [hvote, bind, Except.bind, hov]
    · simp [hvote, bind, Except.bind]
  | _ => exact absurd hspends id

/-- The check of the mux's source `k`, whose input entry is checked for the first time. -/
theorem checkValidSrc_input (hw : Wired h tx muxID mux) (hvs : vs.tx = tx)
    (hid : vs.entryID = muxID) {k : Nat} {src : ValueSource} (hk : mux.sources[k]? = some src)
    (hc : st.cache.lookup src.ref = none) (n : Nat) :
    (checkValidSrc (checkValid h converter verify (n + 1)) { vs with sourcePos := k } src).run st =
        .ok () st' ↔
      ∃ g, sourceGas h converter verify vs st.gas src = .ok g ∧
        st' = ⟨g, (src.ref, none) :: st.cache⟩ := by
  obtain ⟨hpos, e, he, hdest, -⟩ := hw.input k src hk
  have hsd := sourceDestination_of_destination? hdest
  have he' : vs.tx.entry src.ref = some e := hvs ▸ he
  -- the input's own validation state: the mux's, at the source's position and ID
  have hvs' : ({ vs with sourcePos := k, entryID := src.ref } : ValidationState).tx = tx := hvs
  rw [checkValidSrc_run_eq_ok]
  simp only [he', Option.some.injEq, exists_eq_left', hpos, hsd, Except.ok.injEq, hid, and_true,
    sourceGas]
  rw [checkValid_input h converter verify hw hvs' hk rfl he hc n,
    inputGas_congr h converter verify (show ({ vs with sourcePos := k, entryID := src.ref } :
      ValidationState).block = vs.block from rfl) rfl]

/-- The mux's loop over its sources from index `j`: each source's input entry is checked for the
first time, so the loop passes when their gas computations do, in order, and records them. -/
theorem checkValid_sources (hw : Wired h tx muxID mux) (hvs : vs.tx = tx)
    (hid : vs.entryID = muxID) (n : Nat) :
    ∀ (l : List ValueSource) (j : Nat) (st st' : ValState),
      (∀ i src, l[i]? = some src → mux.sources[j + i]? = some src) →
      (∀ src ∈ l, st.cache.lookup src.ref = none) → (l.map (·.ref)).Nodup →
      (((l.zipIdx j).forM fun (src, i) =>
          checkValidSrc (checkValid h converter verify (n + 1)) { vs with sourcePos := i } src).run
          st = .ok () st' ↔
        ∃ g, l.foldlM (sourceGas h converter verify vs) st.gas = .ok g ∧
          st' = ⟨g, checkedCache (l.map (·.ref)) st.cache⟩)
  | [], j, st, st', _, _, _ => by
    simp only [List.zipIdx_nil, run_forM_nil_eq_ok, List.foldlM_nil, List.map_nil,
      checkedCache_nil]
    constructor
    · rintro rfl
      exact ⟨st.gas, rfl, rfl⟩
    · rintro ⟨g, hg, rfl⟩
      cases hg
      rfl
  | src :: l, j, st, st', hl, hc, hnd => by
    have hk : mux.sources[j]? = some src := by simpa using hl 0 src rfl
    rw [List.map_cons, List.nodup_cons] at hnd
    rw [List.zipIdx_cons, run_forM_cons_eq_ok]
    simp only [checkValidSrc_input h converter verify hw hvs hid hk (hc src List.mem_cons_self) n]
    -- the rest of the loop starts from the cache with this source recorded
    have hrest : ∀ g, ((l.zipIdx (j + 1)).forM fun (src, i) =>
          checkValidSrc (checkValid h converter verify (n + 1)) { vs with sourcePos := i } src).run
          ⟨g, (src.ref, none) :: st.cache⟩ = .ok () st' ↔
        ∃ g', l.foldlM (sourceGas h converter verify vs) g = .ok g' ∧
          st' = ⟨g', checkedCache (l.map (·.ref)) ((src.ref, none) :: st.cache)⟩ := by
      intro g
      refine checkValid_sources hw hvs hid n l (j + 1) _ st' (fun i x hx => ?_) (fun x hx => ?_) hnd.2
      · rw [show j + 1 + i = j + (i + 1) by omega]
        exact hl (i + 1) x hx
      · have hne : x.ref ≠ src.ref := fun heq => hnd.1 (List.mem_map.mpr ⟨x, hx, heq⟩)
        simp [List.lookup_cons, beq_false_of_ne hne, hc x (List.mem_cons_of_mem _ hx)]
    simp only [List.foldlM_cons, Except.bind_eq_ok, List.map_cons, checkedCache_cons]
    constructor
    · rintro ⟨st₁, ⟨g₁, hg₁, rfl⟩, hr⟩
      obtain ⟨g, hg, rfl⟩ := (hrest g₁).mp hr
      exact ⟨g, ⟨g₁, hg₁, hg⟩, rfl⟩
    · rintro ⟨g, ⟨g₁, hg₁, hg⟩, rfl⟩
      exact ⟨_, ⟨g₁, hg₁, rfl⟩, (hrest g₁).mpr ⟨g, hg, rfl⟩⟩

/-- The mux's loop over its destinations from index `j` passes and changes nothing: each result
takes its value from the mux at its position. -/
theorem checkValid_dests (hw : Wired h tx muxID mux) (hvs : vs.tx = tx)
    (hid : vs.entryID = muxID) :
    ∀ (l : List ValueDestination) (j : Nat),
      (∀ i d, l[i]? = some d → mux.witnessDestinations[j + i]? = some d) → ∀ st : ValState,
      ((l.zipIdx j).forM fun (dest, i) =>
          liftExcept (checkValidDest { vs with destPos := i } (some dest))).run st = .ok () st
  | [], _, _, _ => rfl
  | d :: l, j, hl, st => by
    have hd : mux.witnessDestinations[j]? = some d := by simpa using hl 0 d rfl
    have hok : checkValidDest { vs with destPos := j } (some d) = .ok () :=
      checkValidDest_result h hw (show ({ vs with destPos := j } : ValidationState).tx = tx from hvs)
        hd hid rfl
    rw [List.zipIdx_cons, run_forM_cons_eq_ok]
    refine ⟨st, by simp only [hok, liftExcept, run_pure], ?_⟩
    refine checkValid_dests hw hvs hid l (j + 1) (fun i x hx => ?_) st
    rw [show j + 1 + i = j + (i + 1) by omega]
    exact hl (i + 1) x hx

/-- The mux, checked for the first time, passes when its gas computation does, and records its
sources and itself. -/
theorem checkValid_mux (hw : Wired h tx muxID mux) (hvs : vs.tx = tx) (hid : vs.entryID = muxID)
    (hc : st.cache.lookup muxID = none)
    (hsrc : ∀ src ∈ mux.sources, st.cache.lookup src.ref = none) (n : Nat) :
    (checkValid h converter verify (n + 2) vs (some (.mux mux))).run st = .ok () st' ↔
      ∃ g, muxGas h converter verify vs mux st.gas = .ok g ∧
        st' = ⟨g, (muxID, none) :: checkedCache (mux.sources.map (·.ref)) st.cache⟩ := by
  have hnd : (mux.sources.map (·.ref)).Nodup :=
    (List.nodup_append.mp (List.nodup_cons.mp hw.ids_nodup).2).2.1
  have hdests := checkValid_dests h hw hvs hid mux.witnessDestinations 0 (fun i d hd => by simpa using hd)
  -- the sources loop, from the state the parity left, whose cache is the mux's
  have hsources : ∀ g₁ t, ((mux.sources.zipIdx).forM fun (src, i) =>
        checkValidSrc (checkValid h converter verify (n + 1)) { vs with sourcePos := i } src).run
        ⟨g₁, st.cache⟩ = .ok () t ↔
      ∃ g₂, mux.sources.foldlM (sourceGas h converter verify vs) g₁ = .ok g₂ ∧
        t = ⟨g₂, checkedCache (mux.sources.map (·.ref)) st.cache⟩ :=
    fun g₁ t => checkValid_sources h converter verify hw hvs hid n mux.sources 0 _ t
      (fun i x hx => by simpa using hx) hsrc hnd
  rw [checkValid, entryIDOf_of_entry h hw.keyed hw.mux_found, memo_run_of_miss hc]
  simp only [checkValidBody]
  constructor
  · rintro ⟨s₁, hbody, rfl⟩
    obtain ⟨p, t₁, hrun₁, hrest⟩ := Iff.mp run_bind_eq_ok hbody
    obtain ⟨hp, rfl⟩ := Iff.mp liftExcept_run_eq_ok hrun₁
    obtain ⟨⟨⟩, t₂, hrun₂, hrest⟩ := Iff.mp run_bind_eq_ok hrest
    obtain ⟨g₁, hg₁, rfl⟩ := Iff.mp modifyGas_run_eq_ok hrun₂
    obtain ⟨⟨⟩, t₃, hd, hrest⟩ := Iff.mp run_bind_eq_ok hrest
    rw [hdests] at hd
    cases hd
    obtain ⟨⟨⟩, t₄, hs, hcharge⟩ := Iff.mp run_bind_eq_ok hrest
    obtain ⟨g₂, hg₂, rfl⟩ := (hsources g₁ t₄).mp hs
    obtain ⟨g, hg, rfl⟩ := Iff.mp modifyGas_run_eq_ok hcharge
    exact ⟨g, (muxGas_eq_ok h converter verify).mpr ⟨p, g₁, g₂, hp, hg₁, hg₂, hg⟩, rfl⟩
  · rintro ⟨g, hg, rfl⟩
    obtain ⟨p, g₁, g₂, hp, hg₁, hg₂, hg⟩ := (muxGas_eq_ok h converter verify).mp hg
    refine ⟨⟨g, checkedCache (mux.sources.map (·.ref)) st.cache⟩, ?_, rfl⟩
    refine Iff.mpr run_bind_eq_ok ⟨p, st, Iff.mpr liftExcept_run_eq_ok ⟨hp, rfl⟩, ?_⟩
    refine Iff.mpr run_bind_eq_ok ⟨(), ⟨g₁, st.cache⟩, Iff.mpr modifyGas_run_eq_ok ⟨g₁, hg₁, rfl⟩, ?_⟩
    refine Iff.mpr run_bind_eq_ok ⟨(), ⟨g₁, st.cache⟩, hdests _, ?_⟩
    refine Iff.mpr run_bind_eq_ok ⟨(), _, (hsources g₁ _).mpr ⟨g₂, hg₂, rfl⟩, ?_⟩
    exact Iff.mpr modifyGas_run_eq_ok ⟨g, hg, rfl⟩

theorem sourceDestination_mux {i : Nat} {d : ValueDestination}
    (hd : mux.witnessDestinations[i]? = some d) : sourceDestination i (.mux mux) = .ok d := by
  simp [sourceDestination, hd]

/-- A result's source check passes when the mux, checked from it, passes. -/
theorem checkValidSrc_mux {check : ValidationState → Option Entry → ValM Unit}
    (hw : Wired h tx muxID mux) (hvs : vs.tx = tx) {i : Nat} {d : ValueDestination}
    (hd : mux.witnessDestinations[i]? = some d) (hid : vs.entryID = d.ref)
    (hpos : vs.sourcePos = 0) :
    (checkValidSrc check vs ⟨muxID, d.value, i⟩).run st = .ok () st' ↔
      (check { vs with entryID := muxID } (some (.mux mux))).run st = .ok () st' := by
  have hpos0 := (hw.result i d hd).1
  have hmux : vs.tx.entry muxID = some (.mux mux) := hvs ▸ hw.mux_found
  rw [checkValidSrc_run_eq_ok]
  simp only [hmux, Option.some.injEq, exists_eq_left', sourceDestination_mux hd, Except.ok.injEq,
    hid, hpos, hpos0, and_true, exists_eq_left']

/-- A result passes when its own checks do and the mux, checked from it, passes. -/
theorem checkValidBody_result {check : ValidationState → Option Entry → ValM Unit}
    (hw : Wired h tx muxID mux) (hvs : vs.tx = tx) {i : Nat} {d : ValueDestination}
    (hd : mux.witnessDestinations[i]? = some d) (hid : vs.entryID = d.ref) {e : Entry}
    (he : tx.entry d.ref = some e) :
    (checkValidBody h converter verify check vs (some e)).run st = .ok () st' ↔
      ResultChecks e ∧
        (check { vs with sourcePos := 0, entryID := muxID } (some (.mux mux))).run st = .ok () st' := by
  obtain ⟨-, e', he', hsrc⟩ := hw.result i d hd
  rw [he] at he'
  cases he'
  have hsrcmux : ∀ t t' : ValState,
      (checkValidSrc check { vs with sourcePos := 0 } ⟨muxID, d.value, i⟩).run t = .ok () t' ↔
        (check { vs with sourcePos := 0, entryID := muxID } (some (.mux mux))).run t = .ok () t' :=
    fun t t' => checkValidSrc_mux h hw
      (show ({ vs with sourcePos := 0 } : ValidationState).tx = tx from hvs) hd hid rfl
  cases e <;> simp only [Entry.source?, reduceCtorEq, Option.some.injEq] at hsrc
  · simp only [checkValidBody, hsrc, hsrcmux, ResultChecks, true_and]
  · simp only [checkValidBody, hsrc, run_ite_eq_ok, run_bind_eq_ok, run_throw_ne_ok, hsrcmux,
      ResultChecks, run_pure_eq_ok, false_and, and_false, exists_false, false_or,
      ne_eq, not_not, not_lt, true_and]
    constructor
    · rintro ⟨h64, _, s₁, hmux, hamt, hasset, rfl⟩
      exact ⟨⟨h64, hamt, hasset⟩, hmux⟩
    · rintro ⟨⟨h64, hamt, hasset⟩, hmux⟩
      exact ⟨h64, (), st', hmux, hamt, hasset, rfl⟩
  · simp only [checkValidBody, hsrc, hsrcmux, ResultChecks, true_and]

/-- A result checked first, before the mux: its own checks, and the mux's gas computation, from
the state the result sees; the result, the mux and its sources are recorded. -/
theorem checkValid_result_first (hw : Wired h tx muxID mux) (hvs : vs.tx = tx) {i : Nat}
    {d : ValueDestination} (hd : mux.witnessDestinations[i]? = some d) (hid : vs.entryID = d.ref)
    {e : Entry} (he : tx.entry d.ref = some e) (hcd : st.cache.lookup d.ref = none)
    (hcm : st.cache.lookup muxID = none)
    (hsrc : ∀ src ∈ mux.sources, st.cache.lookup src.ref = none) (n : Nat) :
    (checkValid h converter verify (n + 3) vs (some e)).run st = .ok () st' ↔
      ResultChecks e ∧ ∃ g, muxGas h converter verify vs mux st.gas = .ok g ∧
        st' = ⟨g, (d.ref, none) :: (muxID, none) :: checkedCache (mux.sources.map (·.ref)) st.cache⟩ := by
  -- the mux is checked in the result's validation state, under its own ID
  have hmux := fun t => @checkValid_mux h converter verify tx muxID mux _ st t hw
    (show ({ vs with sourcePos := 0, entryID := muxID } : ValidationState).tx = tx from hvs) rfl hcm
    hsrc n
  rw [checkValid, entryIDOf_of_entry h hw.keyed he, memo_run_of_miss hcd]
  simp only [checkValidBody_result h converter verify hw hvs hd hid he, hmux,
    muxGas_congr h converter verify (show ({ vs with sourcePos := 0, entryID := muxID } :
      ValidationState).block = vs.block from rfl) rfl]
  constructor
  · rintro ⟨s₁, ⟨hr, g, hg, rfl⟩, rfl⟩
    exact ⟨hr, g, hg, rfl⟩
  · rintro ⟨hr, g, hg, rfl⟩
    exact ⟨_, ⟨hr, g, hg, rfl⟩, rfl⟩

/-- A result checked after the mux: only its own checks, and it is recorded. -/
theorem checkValid_result_cached (hw : Wired h tx muxID mux) (hvs : vs.tx = tx) {i : Nat}
    {d : ValueDestination} (hd : mux.witnessDestinations[i]? = some d) (hid : vs.entryID = d.ref)
    {e : Entry} (he : tx.entry d.ref = some e) (hcd : st.cache.lookup d.ref = none)
    (hcm : st.cache.lookup muxID = some none) (n : Nat) :
    (checkValid h converter verify (n + 2) vs (some e)).run st = .ok () st' ↔
      ResultChecks e ∧ st' = ⟨st.gas, (d.ref, none) :: st.cache⟩ := by
  have hmux : ∀ t, (checkValid h converter verify (n + 1) { vs with sourcePos := 0, entryID := muxID }
      (some (.mux mux))).run st = .ok () t ↔ t = st := by
    intro t
    rw [checkValid, entryIDOf_of_entry h hw.keyed hw.mux_found, memo_run_of_hit hcm]
    constructor
    · intro ht
      cases ht
      rfl
    · rintro rfl
      rfl
  rw [checkValid, entryIDOf_of_entry h hw.keyed he, memo_run_of_miss hcd]
  simp only [checkValidBody_result h converter verify hw hvs hd hid he, hmux]
  constructor
  · rintro ⟨_, ⟨hr, rfl⟩, rfl⟩
    exact ⟨hr, rfl⟩
  · rintro ⟨hr, rfl⟩
    exact ⟨st, ⟨hr, rfl⟩, rfl⟩

/-- The header's loop over results after the mux was checked: each result's own checks, and the
results are recorded. -/
theorem checkValid_results (hw : Wired h tx muxID mux) (hvs : vs.tx = tx) (n : Nat) :
    ∀ (l : List ValueDestination) (st st' : ValState), (∀ d ∈ l, d ∈ mux.witnessDestinations) →
      st.cache.lookup muxID = some none → (∀ d ∈ l, st.cache.lookup d.ref = none) →
      (l.map (·.ref)).Nodup →
      (((l.map (·.ref)).forM fun resID =>
          checkValid h converter verify (n + 2) { vs with entryID := resID }
            (vs.tx.entry resID)).run st = .ok () st' ↔
        (∀ d ∈ l, ∀ e, tx.entry d.ref = some e → ResultChecks e) ∧
          st' = ⟨st.gas, checkedCache (l.map (·.ref)) st.cache⟩)
  | [], st, st', _, _, _, _ => by
    simp only [List.map_nil, run_forM_nil_eq_ok, List.not_mem_nil, IsEmpty.forall_iff,
      implies_true, true_and, checkedCache_nil]
    exact eq_comm
  | d :: l, st, st', hl, hcm, hcd, hnd => by
    obtain ⟨i, hi⟩ := List.mem_iff_getElem?.mp (hl d List.mem_cons_self)
    obtain ⟨-, e, he, -⟩ := hw.result i d hi
    rw [List.map_cons, List.nodup_cons] at hnd
    have he' : vs.tx.entry d.ref = some e := hvs ▸ he
    have hvs' : ({ vs with entryID := d.ref } : ValidationState).tx = tx := hvs
    -- the later results see this one recorded, and the mux still recorded
    have hrest := checkValid_results hw hvs n l ⟨st.gas, (d.ref, none) :: st.cache⟩ st'
      (fun d' hd' => hl d' (List.mem_cons_of_mem _ hd'))
      (by rw [lookup_cons_of_ne (hw.result_ne_mux (hl d List.mem_cons_self)).symm, hcm])
      (fun d' hd' => by
        rw [lookup_cons_of_ne (fun heq => hnd.1 (List.mem_map.mpr ⟨d', hd', heq⟩))]
        exact hcd d' (List.mem_cons_of_mem _ hd'))
      hnd.2
    rw [List.map_cons, run_forM_cons_eq_ok]
    simp only [he', fun t => @checkValid_result_cached h converter verify tx muxID mux _ st t hw
      hvs' i d hi rfl e he (hcd d List.mem_cons_self) hcm n]
    simp only [List.forall_mem_cons, he, Option.some.injEq, forall_eq', checkedCache_cons]
    constructor
    · rintro ⟨_, ⟨hr, rfl⟩, hs⟩
      obtain ⟨hrs, rfl⟩ := hrest.mp hs
      exact ⟨⟨hr, hrs⟩, rfl⟩
    · rintro ⟨⟨hr, hrs⟩, rfl⟩
      exact ⟨_, ⟨hr, rfl⟩, hrest.mpr ⟨hrs, rfl⟩⟩

/-- The header's loop over all the results, from the empty cache: the first result checks the
mux and its sources, and the others find it checked. The cache lists what passed, in the order
the checks ended. -/
theorem checkValid_resultIds (hw : Wired h tx muxID mux) (hvs : vs.tx = tx)
    (hne : mux.witnessDestinations ≠ []) (g : GasState) (n : Nat) :
    ((mux.witnessDestinations.map (·.ref)).forM fun resID =>
        checkValid h converter verify (n + 3) { vs with entryID := resID }
          (vs.tx.entry resID)).run ⟨g, []⟩ = .ok () st' ↔
      (∀ d ∈ mux.witnessDestinations, ∀ e, tx.entry d.ref = some e → ResultChecks e) ∧
        ∃ g', muxGas h converter verify vs mux g = .ok g' ∧
          st' = ⟨g', checkedCache
            (mux.sources.map (·.ref) ++ muxID :: mux.witnessDestinations.map (·.ref)) []⟩ := by
  obtain ⟨d, rest, hwd⟩ := List.exists_cons_of_ne_nil hne
  have hdmem : d ∈ mux.witnessDestinations := hwd ▸ List.mem_cons_self
  have hd : mux.witnessDestinations[0]? = some d := by simp [hwd]
  obtain ⟨-, e, he, -⟩ := hw.result 0 d hd
  have he' : vs.tx.entry d.ref = some e := hvs ▸ he
  have hvs' : ({ vs with entryID := d.ref } : ValidationState).tx = tx := hvs
  have hnd := hw.results_nodup
  rw [hwd, List.map_cons, List.nodup_cons] at hnd
  -- the first result checks the mux and its sources, from the empty cache
  have hfirst := fun t => @checkValid_result_first h converter verify tx muxID mux _ ⟨g, []⟩ t hw
    hvs' 0 d hd rfl e he rfl rfl (fun _ _ => rfl) n
  -- the later results find the mux recorded by the first, and themselves not
  have hrest := fun g₁ => checkValid_results h converter verify hw hvs (n + 1) rest
    ⟨g₁, (d.ref, none) :: (muxID, none) :: checkedCache (mux.sources.map (·.ref)) []⟩ st'
    (fun d' hd' => hwd ▸ List.mem_cons_of_mem _ hd')
    (by rw [lookup_cons_of_ne (hw.result_ne_mux hdmem).symm, List.lookup_cons_self])
    (fun d' hd' => by
      have hd'mem : d' ∈ mux.witnessDestinations := hwd ▸ List.mem_cons_of_mem _ hd'
      rw [lookup_cons_of_ne (fun heq => hnd.1 (List.mem_map.mpr ⟨d', hd', heq⟩)),
        lookup_cons_of_ne (hw.result_ne_mux hd'mem), lookup_checkedCache,
        if_neg (hw.result_not_mem_sources hd'mem)]
      rfl)
    hnd.2
  have hcache : checkedCache (mux.sources.map (·.ref) ++ muxID :: d.ref :: rest.map (·.ref)) [] =
      checkedCache (rest.map (·.ref))
        ((d.ref, none) :: (muxID, none) :: checkedCache (mux.sources.map (·.ref)) []) := by
    rw [checkedCache_append, checkedCache_cons, checkedCache_cons]
  rw [hwd, List.map_cons, run_forM_cons_eq_ok]
  simp only [he', hfirst, muxGas_congr h converter verify
    (show ({ vs with entryID := d.ref } : ValidationState).block = vs.block from rfl) rfl,
    List.forall_mem_cons, he, Option.some.injEq, forall_eq', hcache]
  constructor
  · rintro ⟨_, ⟨hr, g', hg', rfl⟩, hs⟩
    obtain ⟨hrs, rfl⟩ := (hrest g').mp hs
    exact ⟨⟨hr, hrs⟩, g', hg', rfl⟩
  · rintro ⟨⟨hr, hrs⟩, g', hg', rfl⟩
    exact ⟨_, ⟨hr, g', hg', rfl⟩, (hrest g').mpr ⟨hrs, rfl⟩⟩

/-- The header of a transaction with results, checked from the empty cache, passes when every
result's own checks and the mux's gas computation do, and leaves the mux's gas state. -/
theorem checkValid_header (hw : Wired h tx muxID mux) (hvs : vs.tx = tx)
    (hne : mux.witnessDestinations ≠ []) (g : GasState) (n : Nat) :
    (checkValid h converter verify (n + 4) vs (some (.txHeader tx.txHeader))).run ⟨g, []⟩ =
        .ok () st' ↔
      (∀ d ∈ mux.witnessDestinations, ∀ e, tx.entry d.ref = some e → ResultChecks e) ∧
        ∃ g', muxGas h converter verify vs mux g = .ok g' ∧
          st' = ⟨g', (entryIDOf h (some (.txHeader tx.txHeader)), none) :: checkedCache
            (mux.sources.map (·.ref) ++ muxID :: mux.witnessDestinations.map (·.ref)) []⟩ := by
  have hloop := fun t => @checkValid_resultIds h converter verify tx muxID mux vs t hw hvs hne g n
  -- with results, the header's own check passes
  have hnonempty : ¬(tx.txHeader.version = 1 ∧ mux.witnessDestinations.map (·.ref) = []) :=
    fun hc => hne (List.map_eq_nil_iff.mp hc.2)
  rw [checkValid, memo_run_of_miss (show (⟨g, []⟩ : ValState).cache.lookup _ = none from rfl)]
  simp only [checkValidBody, hw.resultIds, run_bind_eq_ok, hloop, hnonempty, if_false,
    run_pure_eq_ok]
  constructor
  · rintro ⟨_, ⟨⟨⟩, _, ⟨hr, g', hg', rfl⟩, -, rfl⟩, rfl⟩
    exact ⟨hr, g', hg', rfl⟩
  · rintro ⟨hr, g', hg', rfl⟩
    exact ⟨_, ⟨(), _, ⟨hr, g', hg', rfl⟩, trivial, rfl⟩, rfl⟩

end Wired

/-! ## `validateTx` -/

section ValidateTx

variable (h : Hasher) (converter : Bytes → Option Bytes)
  (verify : Context → Int → Option (Int × Option VMError))

/-- `validateTx` returns a gas state exactly when its checks of the header pass and the header's
traversal, from the zero gas state and the empty cache, ends with it. -/
theorem validateTx_eq_ok {fuel : Nat} {tx : Tx} {block : Block} {first : Bool} {g : GasState} :
    validateTx h converter verify fuel tx block first = .ok g ↔
      ¬(block.version = 1 ∧ tx.txHeader.version ≠ 1) ∧ tx.txHeader.serializedSize ≠ 0 ∧
        checkTimeRange tx block = .ok () ∧ tx.inputIDs.Nodup ∧
        ∃ st, (checkValid h converter verify fuel ⟨block, tx, first, tx.id, 0, 0⟩
          (some (.txHeader tx.txHeader))).run ⟨GasState.zero, []⟩ = .ok () st ∧ st.gas = g := by
  unfold validateTx checkDoubleSpend
  by_cases hv : block.version = 1 ∧ tx.txHeader.version ≠ 1
  · simp [hv, bind, Except.bind, throw, throwThe, MonadExceptOf.throw]
  by_cases hs : tx.txHeader.serializedSize = 0
  · simp [hv, hs, bind, Except.bind, throw, throwThe, MonadExceptOf.throw]
  cases htr : checkTimeRange tx block with
  | error e => simp [hv, hs, bind, Except.bind]
  | ok u =>
    by_cases hn : tx.inputIDs.Nodup
    · cases hrun : (checkValid h converter verify fuel ⟨block, tx, first, tx.id, 0, 0⟩
          (some (.txHeader tx.txHeader))).run ⟨GasState.zero, []⟩ with
      | ok _ st => simp [hv, hs, hn, hrun, bind, Except.bind, pure, Except.pure]
      | error e st => simp [hv, hs, hn, hrun, bind, Except.bind, throw, throwThe,
          MonadExceptOf.throw]
    · simp [hv, hs, hn, bind, Except.bind]

/-- A header without results reaches no other entry: it passes, leaving the gas state as it was,
exactly when its version is not 1. -/
theorem checkValid_header_noResults {vs : ValidationState} {hdr : TxHeader}
    (hres : hdr.resultIds = []) (g : GasState) (n : Nat) {st' : ValState} :
    (checkValid h converter verify (n + 1) vs (some (.txHeader hdr))).run ⟨g, []⟩ = .ok () st' ↔
      hdr.version ≠ 1 ∧ st' = ⟨g, [(entryIDOf h (some (.txHeader hdr)), none)]⟩ := by
  rw [checkValid, memo_run_of_miss (show (⟨g, []⟩ : ValState).cache.lookup _ = none from rfl)]
  simp only [checkValidBody, hres, run_bind_eq_ok, run_forM_nil_eq_ok, run_ite_eq_ok,
    run_throw_ne_ok, run_pure_eq_ok, and_true, and_false, false_or, true_and]
  constructor
  · rintro ⟨_, ⟨⟨⟩, _, rfl, hv, rfl⟩, rfl⟩
    exact ⟨hv, rfl⟩
  · rintro ⟨hv, rfl⟩
    exact ⟨_, ⟨(), _, rfl, hv, rfl⟩, rfl⟩

/-- A transaction without results, given any fuel, is valid exactly when its header's checks pass,
its input IDs are distinct and neither it nor the block has version 1; its gas state is zero. -/
theorem validateTx_noResults {tx : Tx} (hres : tx.txHeader.resultIds = []) {block : Block}
    {first : Bool} {g : GasState} (n : Nat) :
    validateTx h converter verify (n + 1) tx block first = .ok g ↔
      block.version ≠ 1 ∧ tx.txHeader.version ≠ 1 ∧ tx.txHeader.serializedSize ≠ 0 ∧
        checkTimeRange tx block = .ok () ∧ tx.inputIDs.Nodup ∧ g = GasState.zero := by
  rw [validateTx_eq_ok]
  simp only [checkValid_header_noResults h converter verify hres]
  constructor
  · rintro ⟨hb, hs, htr, hn, _, ⟨htv, rfl⟩, rfl⟩
    exact ⟨fun hb1 => hb ⟨hb1, htv⟩, htv, hs, htr, hn, rfl⟩
  · rintro ⟨hb, htv, hs, htr, hn, rfl⟩
    exact ⟨fun hb1 => hb hb1.1, hs, htr, hn, _, ⟨htv, rfl⟩, rfl⟩

/-- A wired transaction with results, given fuel for the four levels of its graph (header,
result, mux, input), is valid exactly when the header's checks pass, its input IDs are distinct,
each result's own checks pass and the mux's gas computation from the zero gas state does; the gas
state it returns is the mux's. -/
theorem validateTx_wired {tx : Tx} {muxID : Hash} {mux : Mux} (hw : Wired h tx muxID mux)
    (hne : mux.witnessDestinations ≠ []) {block : Block} {first : Bool} {g : GasState} (n : Nat) :
    validateTx h converter verify (n + 4) tx block first = .ok g ↔
      ¬(block.version = 1 ∧ tx.txHeader.version ≠ 1) ∧ tx.txHeader.serializedSize ≠ 0 ∧
        checkTimeRange tx block = .ok () ∧ tx.inputIDs.Nodup ∧
        (∀ d ∈ mux.witnessDestinations, ∀ e, tx.entry d.ref = some e → ResultChecks e) ∧
        muxGas h converter verify ⟨block, tx, first, tx.id, 0, 0⟩ mux GasState.zero = .ok g := by
  -- the header's run, read through its gas state
  have hrun : (∃ st, (checkValid h converter verify (n + 4) ⟨block, tx, first, tx.id, 0, 0⟩
        (some (.txHeader tx.txHeader))).run ⟨GasState.zero, []⟩ = .ok () st ∧ st.gas = g) ↔
      (∀ d ∈ mux.witnessDestinations, ∀ e, tx.entry d.ref = some e → ResultChecks e) ∧
        muxGas h converter verify ⟨block, tx, first, tx.id, 0, 0⟩ mux GasState.zero = .ok g := by
    simp only [checkValid_header h converter verify hw
      (show (⟨block, tx, first, tx.id, 0, 0⟩ : ValidationState).tx = tx from rfl) hne]
    constructor
    · rintro ⟨_, ⟨hr, g', hg', rfl⟩, rfl⟩
      exact ⟨hr, hg'⟩
    · rintro ⟨hr, hg⟩
      exact ⟨_, ⟨hr, g, hg, rfl⟩, rfl⟩
  rw [validateTx_eq_ok, hrun]

/-- Whatever fuel a wired transaction with results was validated with, it passed the checks
`validateTx_wired` names and its gas state is the mux's. -/
theorem validateTx_wired_of_ok {tx : Tx} {muxID : Hash} {mux : Mux} (hw : Wired h tx muxID mux)
    (hne : mux.witnessDestinations ≠ []) {block : Block} {first : Bool} {g : GasState} {fuel : Nat}
    (hok : validateTx h converter verify fuel tx block first = .ok g) :
    ¬(block.version = 1 ∧ tx.txHeader.version ≠ 1) ∧ tx.txHeader.serializedSize ≠ 0 ∧
      checkTimeRange tx block = .ok () ∧ tx.inputIDs.Nodup ∧
      (∀ d ∈ mux.witnessDestinations, ∀ e, tx.entry d.ref = some e → ResultChecks e) ∧
      muxGas h converter verify ⟨block, tx, first, tx.id, 0, 0⟩ mux GasState.zero = .ok g := by
  obtain ⟨hv, hs, htr, hn, st, hst, rfl⟩ := (validateTx_eq_ok h converter verify).mp hok
  -- the run did not run out of fuel, so it ends the same way with four more units
  have hmore := checkValid_extends h converter verify (Nat.le_add_right fuel 4) _ _ _ _ hst nofun
  exact (validateTx_wired h converter verify hw hne fuel).mp
    ((validateTx_eq_ok h converter verify).mpr ⟨hv, hs, htr, hn, st, hmore, rfl⟩)

end ValidateTx

end KuskCore.Validation
