import KuskCore.Account.UtxoKeeper

/-!
# Reservations over runs of the keeper

A run is a list of calls (`KeeperCall`), each with the database and height it sees; a call that
fails leaves the keeper as it was. `Consistent` is what every state of a run keeps: `reserved` is
the inverted index of the reservations' output IDs (`InvertedIndex.IsIndex`), every live
reservation ID lies between one and the counter, and the unconfirmed UTXOs are keyed by their
own output IDs. Each call keeps it while the counter is below `2 ^ 64 - 1`
(`Consistent.apply`): a reservation takes the next counter value, which is then fresh, and only
outputs that were not reserved; a cancel drops a reservation together with its index entries.
From a new keeper a run of fewer than `2 ^ 64` calls never reaches that bound.

So along such a run `reserved[h] = rid` exactly when reservation `rid` holds `h`, and no output is
in two live reservations. A successful `Reserve` covers its amount; its change, though, is
computed from the `uint64` sum of the selection, and equals the exact surplus only modulo
`2 ^ 64` (`reserve_change_wraps`).
-/

namespace KuskCore.Account

open InvertedIndex KuskCore.Types

/-- A call of the keeper. -/
inductive KeeperCall where
  | reserve (accountID : String) (assetID : Hash) (amount : UInt64) (useUnconfirmed : Bool)
      (vote : List UInt8) (exp : Nat)
  | reserveParticular (outHash : Hash) (useUnconfirmed : Bool) (exp : Nat)
  | cancel (rid : UInt64)
  | expireReservation (t : Nat)
  | addUnconfirmedUtxo (utxos : List UTXO)
  | removeUnconfirmedUtxo (hashes : List Hash)

/-- The keeper after a call; a failed call returns before it changes anything. -/
def KeeperCall.apply (env : KeeperEnv) : KeeperCall → UtxoKeeper → UtxoKeeper
  | .reserve accountID assetID amount useUnconfirmed vote exp, uk =>
    match Account.reserve env accountID assetID amount useUnconfirmed vote exp uk with
    | .ok (_, uk') => uk'
    | .error _ => uk
  | .reserveParticular outHash useUnconfirmed exp, uk =>
    match Account.reserveParticular env outHash useUnconfirmed exp uk with
    | .ok (_, uk') => uk'
    | .error _ => uk
  | .cancel rid, uk => Account.cancel rid uk
  | .expireReservation t, uk => Account.expireReservation t uk
  | .addUnconfirmedUtxo utxos, uk => Account.addUnconfirmedUtxo utxos uk
  | .removeUnconfirmedUtxo hashes, uk => Account.removeUnconfirmedUtxo hashes uk

/-- A run of calls, each with the database and the height it sees. -/
def runKeeper : List (KeeperEnv × KeeperCall) → UtxoKeeper → UtxoKeeper
  | [], uk => uk
  | (env, c) :: calls, uk => runKeeper calls (c.apply env uk)

/-- What every state of a run keeps. -/
structure Consistent (uk : UtxoKeeper) : Prop where
  index : IsIndex Reservation.outputIDs uk.reserved uk.reservations
  ids : ∀ rid res, uk.reservations.lookup rid = some res →
    0 < rid.toNat ∧ rid.toNat ≤ uk.nextIndex.toNat
  keyed : ∀ h u, uk.unconfirmed.lookup h = some u → u.outputID = h

/-- `reserved[h] = rid` exactly when the live reservation `rid` holds an output with ID `h`. -/
def IndexesReservations (uk : UtxoKeeper) : Prop :=
  ∀ h rid, uk.reserved.lookup h = some rid ↔
    ∃ res, uk.reservations.lookup rid = some res ∧ h ∈ res.outputIDs

/-- No output ID is held by two live reservations. -/
def ReservationsDisjoint (uk : UtxoKeeper) : Prop :=
  ∀ h rid₁ rid₂ res₁ res₂, uk.reservations.lookup rid₁ = some res₁ →
    uk.reservations.lookup rid₂ = some res₂ → h ∈ res₁.outputIDs → h ∈ res₂.outputIDs →
    rid₁ = rid₂

/-- Every successful `Reserve` from the keeper covers its amount, with the change computed from
the sum modulo `2 ^ 64`. -/
def ReserveCovers (uk : UtxoKeeper) : Prop :=
  ∀ env accountID assetID amount useUnconfirmed vote exp res uk',
    reserve env accountID assetID amount useUnconfirmed vote exp uk = .ok (res, uk') →
    amount.toNat ≤ sumAmounts res.utxos ∧
      res.change.toNat = sumAmounts res.utxos % 2 ^ 64 - amount.toNat

theorem consistent_newUtxoKeeper : Consistent newUtxoKeeper where
  index := isIndex_empty
  ids _ _ h := by simp [newUtxoKeeper, AList.lookup_empty] at h
  keyed _ _ h := by simp [newUtxoKeeper, AList.lookup_empty] at h

/-! ## One call -/

section Step

variable {uk uk' : UtxoKeeper} {res : Reservation}

/-- Below the bound the next counter value is one more, and no live reservation has it. -/
theorem Consistent.next_fresh (hc : Consistent uk) (hb : uk.nextIndex.toNat + 1 < 2 ^ 64) :
    (uk.nextIndex + 1).toNat = uk.nextIndex.toNat + 1 ∧
      uk.reservations.lookup (uk.nextIndex + 1) = none := by
  have hnext : (uk.nextIndex + 1).toNat = uk.nextIndex.toNat + 1 := by
    rw [UInt64.toNat_add, UInt64.toNat_one, Nat.mod_eq_of_lt hb]
  refine ⟨hnext, ?_⟩
  cases hl : uk.reservations.lookup (uk.nextIndex + 1) with
  | none => rfl
  | some r =>
    have := (hc.ids _ r hl).2
    omega

/-- A reservation under the fresh counter value keeps the bounds on the live IDs. -/
theorem ids_insert_next (hc : Consistent uk) (hb : uk.nextIndex.toNat + 1 < 2 ^ 64)
    (res : Reservation) :
    ∀ rid r, (uk.reservations.insert (uk.nextIndex + 1) res).lookup rid = some r →
      0 < rid.toNat ∧ rid.toNat ≤ (uk.nextIndex + 1).toNat := by
  intro rid r hl
  rw [(hc.next_fresh hb).1]
  by_cases hr : rid = uk.nextIndex + 1
  · subst hr
    rw [(hc.next_fresh hb).1]
    omega
  · rw [AList.lookup_insert_ne hr] at hl
    have := hc.ids rid r hl
    omega

/-- A successful `Reserve` keeps the invariant, and steps the counter by one. -/
theorem Consistent.reserve {env : KeeperEnv} {accountID : String} {assetID : Hash}
    {amount : UInt64} {useUnconfirmed : Bool} {vote : List UInt8} {exp : Nat}
    (hc : Consistent uk) (hb : uk.nextIndex.toNat + 1 < 2 ^ 64)
    (h : reserve env accountID assetID amount useUnconfirmed vote exp uk = .ok (res, uk')) :
    Consistent uk' ∧ uk'.nextIndex.toNat = uk.nextIndex.toNat + 1 := by
  obtain ⟨_, hfree, -, -, hid, -, -, rfl⟩ := reserve_eq_ok h
  -- the reserved outputs were not reserved, and the new ID is fresh
  have hfree' : ∀ i ∈ res.outputIDs, uk.reserved.lookup i = none := by
    intro i hi
    obtain ⟨u, hu, rfl⟩ := List.mem_map.mp hi
    exact hfree u hu
  rw [hid]
  exact ⟨⟨hc.index.insert (hc.next_fresh hb).2 hfree', ids_insert_next hc hb res, hc.keyed⟩,
    (hc.next_fresh hb).1⟩

/-- A successful `ReserveParticular` keeps the invariant, and steps the counter by one. -/
theorem Consistent.reserveParticular {env : KeeperEnv} {outHash : Hash} {useUnconfirmed : Bool}
    {exp : Nat} (hc : Consistent uk) (hb : uk.nextIndex.toNat + 1 < 2 ^ 64)
    (h : reserveParticular env outHash useUnconfirmed exp uk = .ok (res, uk')) :
    Consistent uk' ∧ uk'.nextIndex.toNat = uk.nextIndex.toNat + 1 := by
  obtain ⟨u, hfree, hfind, hid, hutxos, -, -, rfl⟩ := reserveParticular_eq_ok h
  -- the output found is the one asked for, which was not reserved
  have hout : u.outputID = outHash := findUtxo_outputID hc.keyed hfind
  have hitems : res.outputIDs = [u.outputID] := by
    rw [Reservation.outputIDs, hutxos, List.map_singleton]
  have hfree' : ∀ i ∈ res.outputIDs, uk.reserved.lookup i = none := by
    intro i hi
    rw [hitems, List.mem_singleton] at hi
    rw [hi, hout]
    exact hfree
  have hindex := hc.index.insert (hc.next_fresh hb).2 hfree'
  rw [hitems] at hindex
  rw [hid]
  exact ⟨⟨hindex, ids_insert_next hc hb res, hc.keyed⟩, (hc.next_fresh hb).1⟩

theorem cancel_nextIndex (rid : UInt64) (uk : UtxoKeeper) :
    (cancel rid uk).nextIndex = uk.nextIndex := by
  unfold cancel
  split <;> rfl

/-- `cancel` keeps the invariant. -/
theorem Consistent.cancel (hc : Consistent uk) (rid : UInt64) : Consistent (cancel rid uk) := by
  unfold KuskCore.Account.cancel
  split
  · exact hc
  · rename_i r hr
    refine ⟨hc.index.erase hr, fun rid' r' hl => ?_, hc.keyed⟩
    by_cases h : rid' = rid
    · subst h
      rw [AList.lookup_erase] at hl
      cases hl
    · rw [AList.lookup_erase_ne h] at hl
      exact hc.ids rid' r' hl

theorem expireReservation_step (t : Nat) :
    ∀ (es : List (Sigma fun _ : UInt64 => Reservation)) (uk : UtxoKeeper), Consistent uk →
      Consistent (es.foldl (fun uk e => if e.2.expiry < t then KuskCore.Account.cancel e.1 uk else uk) uk) ∧
      (es.foldl (fun uk e => if e.2.expiry < t then KuskCore.Account.cancel e.1 uk else uk) uk).nextIndex =
        uk.nextIndex
  | [], _, hc => ⟨hc, rfl⟩
  | e :: es, uk, hc => by
    rw [List.foldl_cons]
    -- one entry: cancelled or kept, the counter untouched either way
    have hone : Consistent (if e.2.expiry < t then KuskCore.Account.cancel e.1 uk else uk) ∧
        (if e.2.expiry < t then KuskCore.Account.cancel e.1 uk else uk).nextIndex = uk.nextIndex := by
      split
      · exact ⟨hc.cancel e.1, cancel_nextIndex e.1 uk⟩
      · exact ⟨hc, rfl⟩
    obtain ⟨hrest, hnext⟩ := expireReservation_step t es _ hone.1
    exact ⟨hrest, hnext.trans hone.2⟩

/-- `expireReservation` keeps the invariant and the counter. -/
theorem Consistent.expireReservation (hc : Consistent uk) (t : Nat) :
    Consistent (expireReservation t uk) ∧ (expireReservation t uk).nextIndex = uk.nextIndex :=
  expireReservation_step t uk.reservations.entries uk hc

/-- Inserting UTXOs under their own output IDs keeps the unconfirmed map keyed by them. -/
theorem keyed_foldl_insert :
    ∀ (utxos : List UTXO) (m : AList fun _ : Hash => UTXO),
      (∀ h u, m.lookup h = some u → u.outputID = h) →
      ∀ h u, (utxos.foldl (fun m u => m.insert u.outputID u) m).lookup h = some u →
        u.outputID = h
  | [], _, hm => hm
  | v :: utxos, m, hm => by
    rw [List.foldl_cons]
    refine keyed_foldl_insert utxos _ (fun h u hl => ?_)
    by_cases hv : h = v.outputID
    · subst hv
      rw [AList.lookup_insert] at hl
      cases hl
      rfl
    · rw [AList.lookup_insert_ne hv] at hl
      exact hm h u hl

theorem keyed_foldl_erase :
    ∀ (hashes : List Hash) (m : AList fun _ : Hash => UTXO),
      (∀ h u, m.lookup h = some u → u.outputID = h) →
      ∀ h u, (hashes.foldl (fun m h => m.erase h) m).lookup h = some u → u.outputID = h
  | [], _, hm => hm
  | k :: hashes, m, hm => by
    rw [List.foldl_cons]
    refine keyed_foldl_erase hashes _ (fun h u hl => ?_)
    by_cases hk : h = k
    · subst hk
      rw [AList.lookup_erase] at hl
      cases hl
    · rw [AList.lookup_erase_ne hk] at hl
      exact hm h u hl

/-- Every call keeps the invariant below the bound, and steps the counter by at most one. -/
theorem Consistent.apply (hc : Consistent uk) (hb : uk.nextIndex.toNat + 1 < 2 ^ 64)
    (env : KeeperEnv) (c : KeeperCall) :
    Consistent (c.apply env uk) ∧ (c.apply env uk).nextIndex.toNat ≤ uk.nextIndex.toNat + 1 := by
  cases c with
  | reserve accountID assetID amount useUnconfirmed vote exp =>
    dsimp only [KeeperCall.apply]
    split
    · rename_i h
      obtain ⟨hc', hn⟩ := hc.reserve hb h
      exact ⟨hc', Nat.le_of_eq hn⟩
    · exact ⟨hc, Nat.le_succ _⟩
  | reserveParticular outHash useUnconfirmed exp =>
    dsimp only [KeeperCall.apply]
    split
    · rename_i h
      obtain ⟨hc', hn⟩ := hc.reserveParticular hb h
      exact ⟨hc', Nat.le_of_eq hn⟩
    · exact ⟨hc, Nat.le_succ _⟩
  | cancel rid =>
    refine ⟨hc.cancel rid, ?_⟩
    rw [KeeperCall.apply, cancel_nextIndex]
    exact Nat.le_succ _
  | expireReservation t =>
    obtain ⟨hc', hn⟩ := hc.expireReservation t
    refine ⟨hc', ?_⟩
    rw [KeeperCall.apply, hn]
    exact Nat.le_succ _
  | addUnconfirmedUtxo utxos =>
    exact ⟨⟨hc.index, hc.ids, keyed_foldl_insert utxos _ hc.keyed⟩, Nat.le_succ _⟩
  | removeUnconfirmedUtxo hashes =>
    exact ⟨⟨hc.index, hc.ids, keyed_foldl_erase hashes _ hc.keyed⟩, Nat.le_succ _⟩

end Step

/-! ## Runs -/

/-- A run short enough that the counter stays below `2 ^ 64 - 1` keeps the invariant. -/
theorem consistent_runKeeper :
    ∀ (calls : List (KeeperEnv × KeeperCall)) (uk : UtxoKeeper), Consistent uk →
      uk.nextIndex.toNat + calls.length < 2 ^ 64 → Consistent (runKeeper calls uk)
  | [], _, hc, _ => hc
  | (env, c) :: calls, uk, hc, hb => by
    rw [List.length_cons] at hb
    obtain ⟨hc', hn⟩ := hc.apply (by omega) env c
    exact consistent_runKeeper calls _ hc' (by omega)

/-- The invariant's index says which live reservation holds an output. -/
theorem Consistent.indexesReservations {uk : UtxoKeeper} (hc : Consistent uk) :
    IndexesReservations uk :=
  hc.index

theorem Consistent.reservationsDisjoint {uk : UtxoKeeper} (hc : Consistent uk) :
    ReservationsDisjoint uk :=
  fun _ _ _ _ _ h₁ h₂ hi₁ hi₂ => hc.index.unique h₁ h₂ hi₁ hi₂

/-- `Reserve` covers its amount exactly, and its change is the surplus of the wrapped sum. -/
theorem reserveCovers (uk : UtxoKeeper) : ReserveCovers uk := by
  intro env accountID assetID amount useUnconfirmed vote exp res uk' h
  obtain ⟨optAmount, -, hsum, hle, -, hchange, -, -⟩ := reserve_eq_ok h
  have hle' := UInt64.le_iff_toNat_le.mp hle
  have hlt := UInt64.toNat_lt amount
  have hmod : sumAmounts res.utxos % 2 ^ 64 ≤ sumAmounts res.utxos := Nat.mod_le _ _
  refine ⟨by omega, ?_⟩
  rw [hchange, UInt64.toNat_sub, hsum]
  rw [hsum] at hle'
  omega

/-- Along every run of fewer than `2 ^ 64` calls from a new keeper, `reserved` indexes the live
reservations, no output is in two of them, and every `Reserve` covers its amount, with its change
taken from the sum modulo `2 ^ 64`. -/
theorem utxoKeeper_reservations (calls : List (KeeperEnv × KeeperCall))
    (hlen : calls.length < 2 ^ 64) :
    IndexesReservations (runKeeper calls newUtxoKeeper) ∧
      ReservationsDisjoint (runKeeper calls newUtxoKeeper) ∧
      ReserveCovers (runKeeper calls newUtxoKeeper) := by
  have hc := consistent_runKeeper calls newUtxoKeeper consistent_newUtxoKeeper
    (by rw [show newUtxoKeeper.nextIndex.toNat = 0 from rfl, Nat.zero_add]; exact hlen)
  exact ⟨hc.indexesReservations, hc.reservationsDisjoint, reserveCovers _⟩

/-! ## A selection whose sum wraps -/

/-- An output of account `alice` in the zero asset, mature at height zero. -/
def aliceUtxo (n : UInt8) (amount : UInt64) : UTXO :=
  { outputID := ⟨n :: List.replicate 31 0, by simp⟩, assetID := Hash.zero, amount, vote := [],
    accountID := "alice", validHeight := 0 }

/-- Four outputs of `2 ^ 63 - 1` and one of `3`. -/
def wrapEnv : KeeperEnv :=
  { standardUtxos := [aliceUtxo 1 (2 ^ 63 - 1), aliceUtxo 2 (2 ^ 63 - 1), aliceUtxo 3 (2 ^ 63 - 1),
      aliceUtxo 4 (2 ^ 63 - 1), aliceUtxo 5 3]
    contractUtxos := []
    currentHeight := 0 }

theorem utxoKeeper_reservations_reserveCancel :
    ([(wrapEnv, .reserve "alice" Hash.zero 3 false [] 10), (wrapEnv, .cancel 1)] :
        List (KeeperEnv × KeeperCall)).length < 2 ^ 64 ∧
      IndexesReservations (runKeeper [(wrapEnv, .reserve "alice" Hash.zero 3 false [] 10),
        (wrapEnv, .cancel 1)] newUtxoKeeper) ∧
      ReservationsDisjoint (runKeeper [(wrapEnv, .reserve "alice" Hash.zero 3 false [] 10),
        (wrapEnv, .cancel 1)] newUtxoKeeper) ∧
      ReserveCovers (runKeeper [(wrapEnv, .reserve "alice" Hash.zero 3 false [] 10),
        (wrapEnv, .cancel 1)] newUtxoKeeper) :=
  ⟨by decide, utxoKeeper_reservations _ (by decide)⟩

/-- Reserving `2 ^ 64 - 1` takes all five outputs, which sum to `2 ^ 65 - 1`; the `uint64` sum
is `2 ^ 64 - 1`, so the change is `0` where the surplus is `2 ^ 64`. -/
theorem reserve_change_wraps :
    (reserve wrapEnv "alice" Hash.zero (2 ^ 64 - 1) false [] 0 newUtxoKeeper).toOption.map
        (fun r => (sumAmounts r.1.utxos, r.1.change)) = some (2 ^ 65 - 1, 0) ∧
      2 ^ 65 - 1 - (2 ^ 64 - 1) ≠ (0 : Nat) := by
  refine ⟨?_, by decide⟩
  decide +kernel

end KuskCore.Account
