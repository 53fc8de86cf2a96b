import Mathlib
import KuskCore.InvertedIndex
import KuskCore.Types.Commitment

/-!
# The wallet's UTXO keeper

`account/utxo_keeper.go`. The keeper hands out reservations of the wallet's UTXOs: `Reserve`
selects outputs of an account and asset that cover an amount, `ReserveParticular` takes one
output by its ID, and `Cancel` and `expireReservation` give reservations back. It keeps
`reservations`, by reservation ID, and `reserved`, which sends each reserved output ID to the ID
of its reservation; the reservation ID is the next value of a `uint64` counter.

Coin selection (`optUTXOs`) sorts the candidates by amount, largest first, sets aside those
already reserved, and then takes outputs until the amount is reached; past that point it tries to
replace the first output taken by a run of the following ones (`optLoop`, one node of Go's list
per call). Sums are `uint64` and wrap. With no output taken yet and an amount of zero, the loop
reads the value of a nil list node, a nil dereference (`KeeperError.nilDereference`).

The wallet database and the height are outside the keeper: `KeeperEnv` gives the standard UTXOs
(those under `UTXOPreFix`, which `findUtxos` walks), the contract UTXOs (which only `findUtxo`
looks up) and `currentHeight()`. A record is found under the key of its own output ID, as the
wallet indexer writes it.

The lemmas here say once what each call does: `optUTXOs_spec` (the selected outputs are
unreserved candidates and the wrapped sum is their sum modulo `2 ^ 64`), `reserve_eq_ok`,
`reserveParticular_eq_ok`, and what `cancel` and the two unconfirmed-UTXO calls change.
-/

namespace KuskCore.Account

open InvertedIndex KuskCore.Types

/-- `account.UTXO`, with the fields the keeper reads. -/
structure UTXO where
  outputID : Hash
  assetID : Hash
  amount : UInt64
  vote : List UInt8
  accountID : String
  validHeight : UInt64
  deriving DecidableEq

/-- `reservation`; the expiry is a time in nanoseconds. -/
structure Reservation where
  id : UInt64
  utxos : List UTXO
  change : UInt64
  expiry : Nat
  deriving DecidableEq

/-- The output IDs a reservation holds. -/
def Reservation.outputIDs (res : Reservation) : List Hash := res.utxos.map UTXO.outputID

/-- `utxoKeeper`: the reservation counter and the three maps. -/
structure UtxoKeeper where
  nextIndex : UInt64
  unconfirmed : AList fun _ : Hash => UTXO
  reserved : AList fun _ : Hash => UInt64
  reservations : AList fun _ : UInt64 => Reservation

/-- `newUtxoKeeper`. -/
def newUtxoKeeper : UtxoKeeper := ⟨0, ∅, ∅, ∅⟩

/-- The wallet database, in key order, and `currentHeight()`. -/
structure KeeperEnv where
  standardUtxos : List UTXO
  contractUtxos : List UTXO
  currentHeight : UInt64

/-- `ErrInsufficient`, `ErrImmature`, `ErrReserved`, `ErrMatchUTXO`, and the runtime panic of a
nil list node. -/
inductive KeeperError where
  | insufficient
  | immature
  | reserved
  | matchUTXO
  | nilDereference
  deriving DecidableEq, Repr

/-- `desireUtxoCount`. -/
def desireUtxoCount : Int := 5

/-- The exact sum of the amounts. -/
def sumAmounts (utxos : List UTXO) : Nat := (utxos.map fun u => u.amount.toNat).sum

@[simp] theorem sumAmounts_nil : sumAmounts [] = 0 := rfl

@[simp] theorem sumAmounts_cons (u : UTXO) (us : List UTXO) :
    sumAmounts (u :: us) = u.amount.toNat + sumAmounts us := by
  simp [sumAmounts]

@[simp] theorem sumAmounts_append (us vs : List UTXO) :
    sumAmounts (us ++ vs) = sumAmounts us + sumAmounts vs := by
  simp [sumAmounts]

/-! ## The calls -/

/-- `AddUnconfirmedUtxo`. -/
def addUnconfirmedUtxo (utxos : List UTXO) (uk : UtxoKeeper) : UtxoKeeper :=
  { uk with unconfirmed := utxos.foldl (fun m u => m.insert u.outputID u) uk.unconfirmed }

/-- `RemoveUnconfirmedUtxo`. -/
def removeUnconfirmedUtxo (hashes : List Hash) (uk : UtxoKeeper) : UtxoKeeper :=
  { uk with unconfirmed := hashes.foldl (fun m h => m.erase h) uk.unconfirmed }

/-- `cancel`: drop the reservation and the index entries of its outputs. -/
def cancel (rid : UInt64) (uk : UtxoKeeper) : UtxoKeeper :=
  match uk.reservations.lookup rid with
  | none => uk
  | some res =>
    { uk with
      reservations := uk.reservations.erase rid
      reserved := eraseAll (res.utxos.map UTXO.outputID) uk.reserved }

/-- `expireReservation`: cancel every reservation whose expiry is before `t`. Go ranges over the
map while `cancel` deletes the entry in hand, so every entry present at the start is visited. -/
def expireReservation (t : Nat) (uk : UtxoKeeper) : UtxoKeeper :=
  uk.reservations.entries.foldl (fun uk e => if e.2.expiry < t then cancel e.1 uk else uk) uk

/-- `findUtxos`: the candidates of the account, asset and vote that are mature at the current
height, from the database and then, if asked, from the unconfirmed UTXOs; and the sum of the
immature ones. -/
def findUtxos (env : KeeperEnv) (uk : UtxoKeeper) (accountID : String) (assetID : Hash)
    (useUnconfirmed : Bool) (vote : List UInt8) : List UTXO × UInt64 :=
  let appendUtxo := fun (acc : List UTXO × UInt64) (u : UTXO) =>
    if u.accountID ≠ accountID ∨ u.assetID ≠ assetID ∨ u.vote ≠ vote then acc
    else if u.validHeight > env.currentHeight then (acc.1, acc.2 + u.amount)
    else (acc.1 ++ [u], acc.2)
  let fromDb := env.standardUtxos.foldl appendUtxo ([], 0)
  if !useUnconfirmed then fromDb
  else uk.unconfirmed.entries.foldl (fun acc e => appendUtxo acc e.2) fromDb

/-- `findUtxo`: an unconfirmed UTXO if asked for, else the standard record, else the contract
one. -/
def findUtxo (env : KeeperEnv) (uk : UtxoKeeper) (outHash : Hash) (useUnconfirmed : Bool) :
    Except KeeperError UTXO :=
  match uk.unconfirmed.lookup outHash, useUnconfirmed with
  | some u, true => .ok u
  | _, _ =>
    match env.standardUtxos.find? (·.outputID == outHash) with
    | some u => .ok u
    | none =>
      match env.contractUtxos.find? (·.outputID == outHash) with
      | some u => .ok u
      | none => .error .matchUTXO

/-- The first loop of `optUTXOs`: the unreserved candidates, in order, and the sum of the
reserved ones. -/
def splitReserved (uk : UtxoKeeper) (utxos : List UTXO) : List UTXO × UInt64 :=
  utxos.foldl (fun acc u =>
    if (uk.reserved.lookup u.outputID).isSome then (acc.1, acc.2 + u.amount)
    else (acc.1 ++ [u], acc.2)) ([], 0)

/-- What one node does to the selection. -/
inductive LoopStep where
  /-- Below the amount: take the node. -/
  | grow
  /-- The run of nodes that replaces the first output taken, and the new sum. -/
  | replaced (optList : List UTXO) (optAmount : UInt64)
  /-- The replacement run so far, and its sum with the rest of the selection. -/
  | pending (replaceList : List UTXO) (replaceAmount : UInt64)
  /-- The inner loop's bound is reached without a replacement: the outer loop stops. -/
  | stop

/-- One pass of the inner loop of `optUTXOs` at a node: add it to the replacement run, which
replaces the first output taken as soon as it covers the amount. -/
def replaceStep (amount : UInt64) (optList replaceList : List UTXO) (replaceAmount : UInt64)
    (u : UTXO) : LoopStep :=
  if (replaceList.length : Int) ≤ desireUtxoCount - optList.length then
    if amount ≤ replaceAmount + u.amount then
      .replaced (optList.tail ++ (replaceList ++ [u])) (replaceAmount + u.amount)
    else .pending (replaceList ++ [u]) (replaceAmount + u.amount)
  else .stop

/-- The loop body at a node: take it while below the amount; otherwise start a replacement of
the first output taken (`largestNode`), or go on with the one pending. -/
def loopStep (amount optAmount : UInt64) (optList : List UTXO)
    (replacing : Option (List UTXO × UInt64)) (u : UTXO) : Except KeeperError LoopStep :=
  match replacing with
  | none =>
    if optAmount < amount then .ok .grow
    else
      match optList with
      | [] => .error .nilDereference
      | largest :: _ => .ok (replaceStep amount optList [] (optAmount - largest.amount) u)
  | some (replaceList, replaceAmount) => .ok (replaceStep amount optList replaceList replaceAmount u)

/-- The selection loops of `optUTXOs`, one node of the candidate list per call. -/
def optLoop (amount : UInt64) (optList : List UTXO) (optAmount : UInt64)
    (replacing : Option (List UTXO × UInt64)) : List UTXO → Except KeeperError (List UTXO × UInt64)
  | [] => .ok (optList, optAmount)
  | u :: rest =>
    match loopStep amount optAmount optList replacing u with
    | .error e => .error e
    | .ok .grow => optLoop amount (optList ++ [u]) (optAmount + u.amount) none rest
    | .ok (.replaced l a) => optLoop amount l a none rest
    | .ok (.pending rl ra) => optLoop amount optList optAmount (some (rl, ra)) rest
    | .ok .stop => .ok (optList, optAmount)

/-- `optUTXOs`: the selected outputs, their sum, and the sum of the reserved candidates. Go sorts
with `sort.Slice`, which leaves the order of equal amounts open; here it is the insertion order. -/
def optUTXOs (uk : UtxoKeeper) (utxos : List UTXO) (amount : UInt64) :
    Except KeeperError (List UTXO × UInt64 × UInt64) := do
  let utxos := utxos.insertionSort fun a b => b.amount ≤ a.amount
  let (utxoList, reservedAmount) := splitReserved uk utxos
  let (optList, optAmount) ← optLoop amount [] 0 none utxoList
  pure (optList, optAmount, reservedAmount)

/-- `Reserve`. -/
def reserve (env : KeeperEnv) (accountID : String) (assetID : Hash) (amount : UInt64)
    (useUnconfirmed : Bool) (vote : List UInt8) (exp : Nat) (uk : UtxoKeeper) :
    Except KeeperError (Reservation × UtxoKeeper) := do
  let (utxos, immatureAmount) := findUtxos env uk accountID assetID useUnconfirmed vote
  let (optUtxos, optAmount, reservedAmount) ← optUTXOs uk utxos amount
  if optAmount + reservedAmount + immatureAmount < amount then throw .insufficient
  if optAmount + reservedAmount < amount then throw .immature
  if optAmount < amount then throw .reserved
  let result : Reservation :=
    { id := uk.nextIndex + 1, utxos := optUtxos, change := optAmount - amount, expiry := exp }
  pure (result, { uk with
    nextIndex := uk.nextIndex + 1
    reservations := uk.reservations.insert result.id result
    reserved := pointAll result.id (optUtxos.map UTXO.outputID) uk.reserved })

/-- `ReserveParticular`. -/
def reserveParticular (env : KeeperEnv) (outHash : Hash) (useUnconfirmed : Bool) (exp : Nat)
    (uk : UtxoKeeper) : Except KeeperError (Reservation × UtxoKeeper) := do
  if (uk.reserved.lookup outHash).isSome then throw .reserved
  let u ← findUtxo env uk outHash useUnconfirmed
  if u.validHeight > env.currentHeight then throw .immature
  let result : Reservation := { id := uk.nextIndex + 1, utxos := [u], change := 0, expiry := exp }
  pure (result, { uk with
    nextIndex := uk.nextIndex + 1
    reservations := uk.reservations.insert result.id result
    reserved := uk.reserved.insert u.outputID result.id })

/-! ## Coin selection -/

/-- The unreserved candidates are candidates, and not reserved. -/
theorem mem_splitReserved {uk : UtxoKeeper} {utxos : List UTXO} {u : UTXO}
    (h : u ∈ (splitReserved uk utxos).1) : u ∈ utxos ∧ uk.reserved.lookup u.outputID = none := by
  -- the accumulator of the fold only ever receives unreserved candidates
  suffices key : ∀ (us : List UTXO) (acc : List UTXO × UInt64),
      u ∈ (us.foldl (fun acc u =>
        if (uk.reserved.lookup u.outputID).isSome then (acc.1, acc.2 + u.amount)
        else (acc.1 ++ [u], acc.2)) acc).1 →
      u ∈ acc.1 ∨ (u ∈ us ∧ uk.reserved.lookup u.outputID = none) by
    rcases key utxos ([], 0) h with hnil | hu
    · exact absurd hnil List.not_mem_nil
    · exact hu
  intro us
  induction us with
  | nil => exact fun _ hu => .inl hu
  | cons v us ih =>
    intro acc hu
    rw [List.foldl_cons] at hu
    by_cases hv : (uk.reserved.lookup v.outputID).isSome
    · rw [if_pos hv] at hu
      rcases ih _ hu with hacc | ⟨hus, hl⟩
      · exact .inl hacc
      · exact .inr ⟨List.mem_cons_of_mem v hus, hl⟩
    · rw [if_neg hv] at hu
      rcases ih _ hu with hacc | ⟨hus, hl⟩
      · rcases List.mem_append.mp hacc with hacc | hv'
        · exact .inl hacc
        · rw [List.mem_singleton.mp hv']
          exact .inr ⟨List.mem_cons_self, Option.not_isSome_iff_eq_none.mp hv⟩
      · exact .inr ⟨List.mem_cons_of_mem v hus, hl⟩

/-- What the selection loop keeps: every output taken is a candidate, the wrapped sum is the sum
of the outputs taken modulo `2 ^ 64`, and a pending replacement run is made of candidates and
its wrapped sum counts it with every output taken but the first. -/
def LoopInv (L optList : List UTXO) (optAmount : UInt64) :
    Option (List UTXO × UInt64) → Prop
  | none => (∀ u ∈ optList, u ∈ L) ∧ optAmount.toNat = sumAmounts optList % 2 ^ 64
  | some (replaceList, replaceAmount) =>
    (∀ u ∈ optList, u ∈ L) ∧ optAmount.toNat = sumAmounts optList % 2 ^ 64 ∧
      (∀ u ∈ replaceList, u ∈ L) ∧
      replaceAmount.toNat = (sumAmounts optList.tail + sumAmounts replaceList) % 2 ^ 64

/-- What a node's step keeps of the selection loop's invariant. -/
def StepInv (L optList : List UTXO) (optAmount : UInt64)
    (replacing : Option (List UTXO × UInt64)) : LoopStep → Prop
  | .grow => replacing = none
  | .replaced l a => LoopInv L l a none
  | .pending rl ra => LoopInv L optList optAmount (some (rl, ra))
  | .stop => True

section Loop

variable {L optList : List UTXO} {optAmount amount : UInt64}

/-- A pass of the inner loop keeps the invariant: a replacement is a selection, and a pending
run stays one. -/
theorem replaceStep_inv {replacing : Option (List UTXO × UInt64)} {replaceList : List UTXO}
    {replaceAmount : UInt64} {u : UTXO}
    (hu : u ∈ L) (hopt : ∀ v ∈ optList, v ∈ L)
    (hsum : optAmount.toNat = sumAmounts optList % 2 ^ 64) (hrl : ∀ v ∈ replaceList, v ∈ L)
    (hra : replaceAmount.toNat = (sumAmounts optList.tail + sumAmounts replaceList) % 2 ^ 64) :
    StepInv L optList optAmount replacing (replaceStep amount optList replaceList replaceAmount u) := by
  have hadd : (replaceAmount + u.amount).toNat =
      (sumAmounts optList.tail + sumAmounts replaceList + u.amount.toNat) % 2 ^ 64 := by
    rw [UInt64.toNat_add, hra, Nat.mod_add_mod]
  have hrl' : ∀ v ∈ replaceList ++ [u], v ∈ L := fun v hv => by
    rcases List.mem_append.mp hv with hv | hv
    · exact hrl v hv
    · rw [List.mem_singleton.mp hv]
      exact hu
  unfold replaceStep
  split
  · split
    · -- the run replaces the first output taken
      refine ⟨fun v hv => ?_, ?_⟩
      · rcases List.mem_append.mp hv with hv | hv
        · exact hopt v (List.mem_of_mem_tail hv)
        · exact hrl' v hv
      · rw [hadd, sumAmounts_append, sumAmounts_append, sumAmounts_cons, sumAmounts_nil,
          Nat.add_zero, Nat.add_assoc]
    · refine ⟨hopt, hsum, hrl', ?_⟩
      rw [hadd, sumAmounts_append, sumAmounts_cons, sumAmounts_nil, Nat.add_zero,
        Nat.add_assoc]
  · trivial

/-- Starting a replacement: the selection without its first output, in `uint64`. -/
theorem toNat_sub_largest {largest : UTXO} {others : List UTXO}
    (hsum : optAmount.toNat = sumAmounts (largest :: others) % 2 ^ 64) :
    (optAmount - largest.amount).toNat = sumAmounts others % 2 ^ 64 := by
  rw [UInt64.toNat_sub, hsum, sumAmounts_cons]
  have := UInt64.toNat_lt largest.amount
  omega

/-- One node keeps the invariant of the selection loop. -/
theorem loopStep_inv {replacing : Option (List UTXO × UInt64)} {u : UTXO} {s : LoopStep}
    (hu : u ∈ L) (hinv : LoopInv L optList optAmount replacing)
    (hs : loopStep amount optAmount optList replacing u = .ok s) :
    StepInv L optList optAmount replacing s := by
  cases replacing with
  | none =>
    obtain ⟨hopt, hsum⟩ := hinv
    by_cases hlt : optAmount < amount
    · unfold loopStep at hs
      rw [if_pos hlt] at hs
      cases hs
      rfl
    · cases optList with
      | nil =>
        unfold loopStep at hs
        rw [if_neg hlt] at hs
        cases hs
      | cons largest others =>
        -- a replacement of the first output starts from the sum of the others
        unfold loopStep at hs
        rw [if_neg hlt] at hs
        cases hs
        exact replaceStep_inv hu hopt hsum (fun _ h => absurd h List.not_mem_nil)
          (by rw [toNat_sub_largest hsum, List.tail_cons, sumAmounts_nil, Nat.add_zero])
  | some p =>
    obtain ⟨replaceList, replaceAmount⟩ := p
    obtain ⟨hopt, hsum, hrl, hra⟩ := hinv
    have hs' : Except.ok (replaceStep amount optList replaceList replaceAmount u) = .ok s := hs
    cases hs'
    exact replaceStep_inv hu hopt hsum hrl hra

/-- A run of the selection loop over candidates ends with candidates, and with their sum modulo
`2 ^ 64`. -/
theorem optLoop_spec {l : List UTXO} {a : UInt64} :
    ∀ (rest optList : List UTXO) (optAmount : UInt64) (replacing : Option (List UTXO × UInt64)),
      (∀ u ∈ rest, u ∈ L) → LoopInv L optList optAmount replacing →
      optLoop amount optList optAmount replacing rest = .ok (l, a) →
      (∀ u ∈ l, u ∈ L) ∧ a.toNat = sumAmounts l % 2 ^ 64
  | [], optList, optAmount, replacing, _, hinv, h => by
    cases h
    cases replacing with
    | none => exact hinv
    | some _ => exact ⟨hinv.1, hinv.2.1⟩
  | u :: rest, optList, optAmount, replacing, hrest, hinv, h => by
    have hu : u ∈ L := hrest u List.mem_cons_self
    have hrest' : ∀ v ∈ rest, v ∈ L := fun v hv => hrest v (List.mem_cons_of_mem u hv)
    unfold optLoop at h
    split at h
    · cases h
    · -- take the node
      rename_i hs
      have hnone : replacing = none := loopStep_inv hu hinv hs
      subst hnone
      refine optLoop_spec rest _ _ none hrest' ⟨fun v hv => ?_, ?_⟩ h
      · rcases List.mem_append.mp hv with hv | hv
        · exact hinv.1 v hv
        · rw [List.mem_singleton.mp hv]
          exact hu
      · rw [UInt64.toNat_add, hinv.2, Nat.mod_add_mod, sumAmounts_append, sumAmounts_cons,
          sumAmounts_nil, Nat.add_zero]
    · rename_i l' a' hs
      exact optLoop_spec rest l' a' none hrest' (loopStep_inv hu hinv hs) h
    · rename_i rl ra hs
      exact optLoop_spec rest optList optAmount (some (rl, ra)) hrest' (loopStep_inv hu hinv hs) h
    · -- the inner loop's bound: the selection so far is the result
      cases h
      cases replacing with
      | none => exact hinv
      | some _ => exact ⟨hinv.1, hinv.2.1⟩

end Loop

/-- The outputs `optUTXOs` selects are unreserved candidates, and the sum it returns is their sum
modulo `2 ^ 64`. -/
theorem optUTXOs_spec {uk : UtxoKeeper} {utxos optUtxos : List UTXO}
    {amount optAmount reservedAmount : UInt64}
    (h : optUTXOs uk utxos amount = .ok (optUtxos, optAmount, reservedAmount)) :
    (∀ u ∈ optUtxos, u ∈ utxos ∧ uk.reserved.lookup u.outputID = none) ∧
      optAmount.toNat = sumAmounts optUtxos % 2 ^ 64 := by
  unfold optUTXOs at h
  simp only [bind, Except.bind, pure, Except.pure] at h
  split at h
  · cases h
  · rename_i r hr
    cases h
    -- the loop runs over the unreserved candidates of the sorted list
    have hL : ∀ u ∈ (splitReserved uk (utxos.insertionSort fun a b => b.amount ≤ a.amount)).1,
        u ∈ (splitReserved uk (utxos.insertionSort fun a b => b.amount ≤ a.amount)).1 :=
      fun u hu => hu
    obtain ⟨hmem, hsum⟩ := optLoop_spec _ [] 0 none hL
      ⟨fun _ h => absurd h List.not_mem_nil, rfl⟩ hr
    refine ⟨fun u hu => ?_, hsum⟩
    obtain ⟨hs, hl⟩ := mem_splitReserved (hmem u hu)
    exact ⟨(List.mem_insertionSort _).mp hs, hl⟩

/-! ## Exact selection

When the candidates' amounts add up to less than `2 ^ 64`, no sum of the loop wraps, and the loop
keeps more than `LoopInv`: the outputs taken, followed by a pending replacement run, are a
sub-list of the candidates consumed so far; the sums are exact; and the selection covers the
amount or holds every candidate consumed (`SelectInv`). Only the first node with nothing taken and
an amount of zero reads the nil front of the empty selection. -/

/-- A candidate that `optUTXOs` sets aside as reserved. -/
def UtxoKeeper.isReserved (uk : UtxoKeeper) (u : UTXO) : Bool := (uk.reserved.lookup u.outputID).isSome

/-- The candidates in the order `optUTXOs` visits them: by amount, largest first. -/
def sortByAmount (utxos : List UTXO) : List UTXO := utxos.insertionSort fun a b => b.amount ≤ a.amount

/-- The first loop of `optUTXOs` is a filter, with the wrapped sum of what it filters out. -/
theorem foldl_splitReserved (uk : UtxoKeeper) :
    ∀ (us : List UTXO) (acc : List UTXO × UInt64),
      (us.foldl (fun acc u =>
        if (uk.reserved.lookup u.outputID).isSome then (acc.1, acc.2 + u.amount)
        else (acc.1 ++ [u], acc.2)) acc).1 = acc.1 ++ us.filter (fun u => !uk.isReserved u) ∧
      (us.foldl (fun acc u =>
        if (uk.reserved.lookup u.outputID).isSome then (acc.1, acc.2 + u.amount)
        else (acc.1 ++ [u], acc.2)) acc).2.toNat =
        (acc.2.toNat + sumAmounts (us.filter uk.isReserved)) % 2 ^ 64
  | [], acc => ⟨by simp, by simp [Nat.mod_eq_of_lt (UInt64.toNat_lt acc.2)]⟩
  | u :: us, acc => by
    rw [List.foldl_cons]
    by_cases hu : (uk.reserved.lookup u.outputID).isSome
    · have hr : uk.isReserved u = true := hu
      rw [if_pos hu]
      obtain ⟨h₁, h₂⟩ := foldl_splitReserved uk us (acc.1, acc.2 + u.amount)
      refine ⟨by rw [h₁, List.filter_cons_of_neg (by simp [hr])], ?_⟩
      rw [h₂, List.filter_cons_of_pos hr, sumAmounts_cons, UInt64.toNat_add, Nat.mod_add_mod,
        Nat.add_assoc]
    · have hr : uk.isReserved u = false := Bool.eq_false_iff.mpr hu
      rw [if_neg hu]
      obtain ⟨h₁, h₂⟩ := foldl_splitReserved uk us (acc.1 ++ [u], acc.2)
      refine ⟨by rw [h₁, List.filter_cons_of_pos (by simp [hr]), List.append_assoc]; rfl, ?_⟩
      rw [h₂, List.filter_cons_of_neg (by simp [hr])]

/-- What the selection loop keeps when nothing wraps, relative to the candidates `consumed`
before the current node. -/
def SelectInv (amount : UInt64) (consumed optList : List UTXO) (optAmount : UInt64) :
    Option (List UTXO × UInt64) → Prop
  | none => optList.Sublist consumed ∧ optAmount.toNat = sumAmounts optList ∧
      (amount ≤ optAmount ∨ optList = consumed)
  | some (replaceList, replaceAmount) => (optList ++ replaceList).Sublist consumed ∧
      optAmount.toNat = sumAmounts optList ∧
      replaceAmount.toNat = sumAmounts optList.tail + sumAmounts replaceList ∧
      amount ≤ optAmount ∧ optList ≠ []

/-- What the selection returns: a sub-list of the candidates with its exact sum, which covers the
amount or is every candidate. -/
def Selected (amount : UInt64) (L l : List UTXO) (a : UInt64) : Prop :=
  l.Sublist L ∧ a.toNat = sumAmounts l ∧ (amount ≤ a ∨ l = L)

/-- What one pass of the inner loop leaves, relative to the candidates consumed before the node
`u` and the ones after it. -/
def SelectStep (amount : UInt64) (consumed : List UTXO) (u : UTXO) (rest optList : List UTXO)
    (optAmount : UInt64) : LoopStep → Prop
  | .grow => False
  | .replaced l a => SelectInv amount (consumed ++ [u]) l a none
  | .pending rl ra => SelectInv amount (consumed ++ [u]) optList optAmount (some (rl, ra))
  | .stop => Selected amount (consumed ++ u :: rest) optList optAmount

section Select

variable {amount optAmount : UInt64} {consumed optList : List UTXO}

theorem sumAmounts_le_of_sublist {l L : List UTXO} (h : l.Sublist L) :
    sumAmounts l ≤ sumAmounts L := by
  induction h with
  | slnil => exact Nat.le_refl 0
  | cons _ _ ih => rw [sumAmounts_cons]; omega
  | cons_cons _ _ ih => rw [sumAmounts_cons, sumAmounts_cons]; omega

/-- `uint64` addition is exact below `2 ^ 64`. -/
theorem toNat_add_of_lt {x y : UInt64} (h : x.toNat + y.toNat < 2 ^ 64) :
    (x + y).toNat = x.toNat + y.toNat := by
  rw [UInt64.toNat_add, Nat.mod_eq_of_lt h]

/-- A pass of the inner loop from an exact pending run. The run and the node are consumed
candidates, so their sum is below the total and nothing wraps. -/
theorem replaceStep_select {replaceList : List UTXO} {replaceAmount : UInt64} {u : UTXO}
    {rest : List UTXO} (htot : sumAmounts (consumed ++ u :: rest) < 2 ^ 64)
    (hsub : (optList ++ replaceList).Sublist consumed) (hsum : optAmount.toNat = sumAmounts optList)
    (hra : replaceAmount.toNat = sumAmounts optList.tail + sumAmounts replaceList)
    (hamount : amount ≤ optAmount) (hne : optList ≠ []) :
    SelectStep amount consumed u rest optList optAmount
      (replaceStep amount optList replaceList replaceAmount u) := by
  have hle := sumAmounts_le_of_sublist hsub
  have htail : sumAmounts optList.tail ≤ sumAmounts optList := by
    cases optList with
    | nil => exact absurd rfl hne
    | cons v vs => rw [List.tail_cons, sumAmounts_cons]; omega
  rw [sumAmounts_append, sumAmounts_cons] at htot
  rw [sumAmounts_append] at hle
  have hadd : (replaceAmount + u.amount).toNat =
      sumAmounts optList.tail + sumAmounts replaceList + u.amount.toNat := by
    rw [toNat_add_of_lt (by omega), hra]
  unfold replaceStep
  split
  · split
    · -- the run replaces the first output taken, and is still a sub-list of the candidates
      rename_i hreach
      refine ⟨?_, ?_, .inl hreach⟩
      · rw [← List.append_assoc]
        exact (((List.tail_sublist optList).append (List.Sublist.refl replaceList)).trans hsub).append
          (List.Sublist.refl [u])
      · rw [hadd, sumAmounts_append, sumAmounts_append, sumAmounts_cons, sumAmounts_nil]
        omega
    · refine ⟨?_, hsum, ?_, hamount, hne⟩
      · rw [← List.append_assoc]
        exact hsub.append (List.Sublist.refl [u])
      · rw [hadd, sumAmounts_append, sumAmounts_cons, sumAmounts_nil]
        omega
  · -- the inner loop's bound: the selection, which covers the amount, is the result
    exact ⟨((List.sublist_append_left optList replaceList).trans hsub).trans
      (List.sublist_append_left consumed (u :: rest)), hsum, .inl hamount⟩

/-- The selection loop from an exact state returns an exact selection of all the candidates. -/
theorem optLoop_select {l : List UTXO} {a : UInt64} :
    ∀ (rest consumed optList : List UTXO) (optAmount : UInt64)
      (replacing : Option (List UTXO × UInt64)),
      sumAmounts (consumed ++ rest) < 2 ^ 64 → SelectInv amount consumed optList optAmount replacing →
      optLoop amount optList optAmount replacing rest = .ok (l, a) →
      Selected amount (consumed ++ rest) l a
  | [], consumed, optList, optAmount, replacing, _, hinv, h => by
    cases h
    rw [List.append_nil]
    cases replacing with
    | none => exact hinv
    | some p =>
      obtain ⟨hsub, hsum, -, hamount, -⟩ := hinv
      exact ⟨(List.sublist_append_left _ _).trans hsub, hsum, .inl hamount⟩
  | u :: rest, consumed, optList, optAmount, replacing, htot, hinv, h => by
    have hnext : sumAmounts ((consumed ++ [u]) ++ rest) < 2 ^ 64 := by
      rwa [List.append_assoc, List.singleton_append]
    have heq : (consumed ++ [u]) ++ rest = consumed ++ u :: rest := by
      rw [List.append_assoc, List.singleton_append]
    -- once the node goes to the inner loop, what follows is the run from its outcome
    have key : ∀ {rl : List UTXO} {ra : UInt64},
        SelectStep amount consumed u rest optList optAmount (replaceStep amount optList rl ra u) →
        loopStep amount optAmount optList replacing u = .ok (replaceStep amount optList rl ra u) →
        Selected amount (consumed ++ u :: rest) l a := by
      intro rl ra hs hl
      rw [optLoop, hl] at h
      generalize replaceStep amount optList rl ra u = r at hs h
      cases r with
      | grow => exact hs.elim
      | replaced l' a' =>
        rw [← heq]
        exact optLoop_select rest _ l' a' none hnext hs h
      | pending rl' ra' =>
        rw [← heq]
        exact optLoop_select rest _ _ _ (some (rl', ra')) hnext hs h
      | stop =>
        cases h
        exact hs
    cases replacing with
    | none =>
      obtain ⟨hsub, hsum, hcov⟩ := hinv
      by_cases hlt : optAmount < amount
      · -- below the amount every candidate consumed was taken; take this one too
        have hl : loopStep amount optAmount optList none u = .ok .grow := by
          unfold loopStep
          rw [if_pos hlt]
        rw [optLoop, hl] at h
        have hall : optList = consumed := hcov.resolve_left (UInt64.not_le.mpr hlt)
        subst hall
        have hle : sumAmounts optList + u.amount.toNat < 2 ^ 64 := by
          rw [sumAmounts_append, sumAmounts_cons] at htot
          omega
        rw [← heq]
        refine optLoop_select rest _ _ _ none hnext ⟨List.Sublist.refl _, ?_, .inr rfl⟩ h
        rw [toNat_add_of_lt (by omega), hsum, sumAmounts_append, sumAmounts_cons, sumAmounts_nil,
          Nat.add_zero]
      · cases optList with
        | nil =>
          have hl : loopStep amount optAmount [] none u = .error .nilDereference := by
            unfold loopStep
            rw [if_neg hlt]
          rw [optLoop, hl] at h
          cases h
        | cons largest others =>
          -- a replacement of the first output starts from the exact sum of the others
          have hge : largest.amount.toNat ≤ optAmount.toNat := by
            rw [hsum, sumAmounts_cons]
            omega
          have hra : (optAmount - largest.amount).toNat =
              sumAmounts (largest :: others).tail + sumAmounts [] := by
            rw [UInt64.toNat_sub_of_le _ _ (UInt64.le_iff_toNat_le.mpr hge), hsum, List.tail_cons,
              sumAmounts_cons, sumAmounts_nil]
            omega
          have hl : loopStep amount optAmount (largest :: others) none u =
              .ok (replaceStep amount (largest :: others) [] (optAmount - largest.amount) u) := by
            unfold loopStep
            rw [if_neg hlt]
          exact key (replaceStep_select htot (by rwa [List.append_nil]) hsum hra
            (UInt64.not_lt.mp hlt) (List.cons_ne_nil _ _)) hl
    | some p =>
      obtain ⟨replaceList, replaceAmount⟩ := p
      obtain ⟨hsub, hsum, hra, hamount, hne⟩ := hinv
      exact key (replaceStep_select htot hsub hsum hra hamount hne) rfl

/-- A replacement is never empty: it ends with the node that reached the amount. -/
theorem replaceStep_replaced_ne_nil {replaceList l : List UTXO} {replaceAmount a : UInt64} {u : UTXO}
    (h : replaceStep amount optList replaceList replaceAmount u = .replaced l a) : l ≠ [] := by
  unfold replaceStep at h
  split at h
  · split at h
    · cases h
      simp
    · cases h
  · cases h

/-- With an amount above zero the loop never reads the front of an empty selection: a selection
is empty only at the start, where its sum is zero and below the amount, so the node is taken. -/
theorem optLoop_ok_of_ne_zero (hpos : amount ≠ 0) :
    ∀ (rest optList : List UTXO) (optAmount : UInt64) (replacing : Option (List UTXO × UInt64)),
      (replacing = none → optList = [] → optAmount = 0) →
      ∃ r, optLoop amount optList optAmount replacing rest = .ok r
  | [], optList, optAmount, _, _ => ⟨(optList, optAmount), rfl⟩
  | u :: rest, optList, optAmount, replacing, hnil => by
    -- the outcome of the inner loop, whatever it is, leads to a state the loop goes on from
    have hnext : ∀ {rl : List UTXO} {ra : UInt64},
        loopStep amount optAmount optList replacing u = .ok (replaceStep amount optList rl ra u) →
        ∃ r, optLoop amount optList optAmount replacing (u :: rest) = .ok r := by
      intro rl ra hl
      rw [optLoop, hl]
      generalize hr : replaceStep amount optList rl ra u = r
      cases r with
      | grow => exact optLoop_ok_of_ne_zero hpos rest _ _ none fun _ h => absurd h (by simp)
      | replaced l' a' =>
        exact optLoop_ok_of_ne_zero hpos rest l' a' none fun _ h =>
          absurd h (replaceStep_replaced_ne_nil hr)
      | pending rl' ra' => exact optLoop_ok_of_ne_zero hpos rest _ _ _ fun h => by cases h
      | stop => exact ⟨_, rfl⟩
    cases replacing with
    | none =>
      by_cases hlt : optAmount < amount
      · have hl : loopStep amount optAmount optList none u = .ok .grow := by
          unfold loopStep
          rw [if_pos hlt]
        rw [optLoop, hl]
        exact optLoop_ok_of_ne_zero hpos rest _ _ none fun _ h => absurd h (by simp)
      · cases optList with
        | nil =>
          have h0 := hnil rfl rfl
          subst h0
          exact absurd (UInt64.pos_iff_ne_zero.mpr hpos) hlt
        | cons largest others =>
          exact hnext (by unfold loopStep; rw [if_neg hlt])
    | some p => exact hnext rfl

/-- With an amount of zero and nothing taken, the first node reads the value of the nil front of
the empty selection. -/
theorem optLoop_zero_nil (u : UTXO) (rest : List UTXO) :
    optLoop 0 [] 0 none (u :: rest) = .error .nilDereference := by
  rw [optLoop]
  have hl : loopStep 0 0 [] none u = .error .nilDereference := by
    unfold loopStep
    rw [if_neg (UInt64.lt_irrefl 0)]
  rw [hl]

end Select

/-- `optUTXOs` is its selection loop over the unreserved candidates, largest first, with the
wrapped sum of the reserved ones. -/
theorem optUTXOs_eq (uk : UtxoKeeper) (utxos : List UTXO) (amount : UInt64) :
    optUTXOs uk utxos amount =
      match optLoop amount [] 0 none ((sortByAmount utxos).filter fun u => !uk.isReserved u) with
      | .error e => .error e
      | .ok r => .ok (r.1, r.2, (splitReserved uk (sortByAmount utxos)).2) := by
  have h₁ := (foldl_splitReserved uk (sortByAmount utxos) ([], 0)).1
  rw [List.nil_append] at h₁
  unfold optUTXOs
  simp only [bind, Except.bind, pure, Except.pure]
  rw [show (splitReserved uk (utxos.insertionSort fun a b => b.amount ≤ a.amount)).1 =
    (sortByAmount utxos).filter fun u => !uk.isReserved u from h₁]
  cases optLoop amount [] 0 none ((sortByAmount utxos).filter fun u => !uk.isReserved u) with
  | error e => rfl
  | ok r => rfl

/-- Coin selection over candidates with distinct output IDs whose amounts add up to less than
`2 ^ 64`. With an amount of zero and an unreserved candidate, the first node reads the nil front of
the empty selection. With any other amount `optUTXOs` returns. What it returns is a duplicate-free
sub-list of the unreserved candidates, largest first, with its exact sum. It also returns the exact
sum of the reserved candidates. The selection covers the amount exactly when all the unreserved
candidates together do. -/
theorem optUTXOs_exact {uk : UtxoKeeper} {utxos : List UTXO} {amount : UInt64}
    (hid : (utxos.map UTXO.outputID).Nodup) (htot : sumAmounts utxos < 2 ^ 64) :
    (amount = 0 → (∃ u ∈ utxos, uk.isReserved u = false) →
      optUTXOs uk utxos amount = .error .nilDereference) ∧
    (amount ≠ 0 → ∃ r, optUTXOs uk utxos amount = .ok r) ∧
    ∀ S a r, optUTXOs uk utxos amount = .ok (S, a, r) →
      S.Sublist ((sortByAmount utxos).filter fun u => !uk.isReserved u) ∧ S.Nodup ∧
      (∀ u ∈ S, u ∈ utxos ∧ uk.isReserved u = false) ∧ a.toNat = sumAmounts S ∧
      r.toNat = sumAmounts (utxos.filter uk.isReserved) ∧
      (amount.toNat ≤ a.toNat ↔
        amount.toNat ≤ sumAmounts (utxos.filter fun u => !uk.isReserved u)) := by
  have hperm : (sortByAmount utxos).Perm utxos := List.perm_insertionSort _ _
  have hsumPerm : ∀ {p : UTXO → Bool},
      sumAmounts ((sortByAmount utxos).filter p) = sumAmounts (utxos.filter p) := fun {p} => by
    unfold sumAmounts
    exact ((hperm.filter p).map fun u => u.amount.toNat).sum_nat
  set L := (sortByAmount utxos).filter fun u => !uk.isReserved u with hL
  have hLtot : sumAmounts L < 2 ^ 64 := by
    have := sumAmounts_le_of_sublist (List.filter_sublist (p := fun u => !uk.isReserved u) (l := utxos))
    rw [hL, hsumPerm]
    omega
  refine ⟨fun h0 ⟨u, hu, hfree⟩ => ?_, fun hpos => ?_, fun S a r h => ?_⟩
  · -- an unreserved candidate makes the candidate list non-empty
    subst h0
    have hmem : u ∈ L := List.mem_filter.mpr ⟨hperm.mem_iff.mpr hu, by simp [hfree]⟩
    obtain ⟨v, rest, hvr⟩ := List.exists_cons_of_ne_nil (List.ne_nil_of_mem hmem)
    rw [optUTXOs_eq, ← hL, hvr, optLoop_zero_nil]
  · obtain ⟨⟨l, a⟩, hr⟩ := optLoop_ok_of_ne_zero hpos L [] 0 none fun _ _ => rfl
    rw [optUTXOs_eq, ← hL, hr]
    exact ⟨_, rfl⟩
  · rw [optUTXOs_eq, ← hL] at h
    split at h
    · cases h
    rename_i r hloop
    cases h
    obtain ⟨hsub, hsum, hcov⟩ := optLoop_select L [] [] 0 none hLtot
      ⟨List.Sublist.refl [], rfl, .inr rfl⟩ hloop
    rw [List.nil_append] at hsub hcov
    have hnodup : L.Nodup := (hperm.nodup_iff.mpr (List.Nodup.of_map _ hid)).filter _
    have hres := (foldl_splitReserved uk (sortByAmount utxos) ([], 0)).2
    have hresTot : sumAmounts ((sortByAmount utxos).filter uk.isReserved) < 2 ^ 64 := by
      have := sumAmounts_le_of_sublist (List.filter_sublist (p := uk.isReserved) (l := utxos))
      rw [hsumPerm]
      omega
    refine ⟨hsub, hnodup.sublist hsub, fun u hu => ?_, hsum, ?_, ?_⟩
    · obtain ⟨hu₁, hu₂⟩ := List.mem_filter.mp (hsub.subset hu)
      exact ⟨hperm.mem_iff.mp hu₁, by simpa using hu₂⟩
    · unfold splitReserved
      rw [hres]
      simp only [UInt64.toNat_zero, Nat.zero_add]
      rw [Nat.mod_eq_of_lt hresTot, hsumPerm]
    · rw [← hsumPerm, ← hL]
      have hle := sumAmounts_le_of_sublist hsub
      constructor
      · intro h
        omega
      · intro h
        rcases hcov with hcov | hcov
        · exact UInt64.le_iff_toNat_le.mp hcov
        · rw [hsum, hcov]
          exact h

/-- Two unreserved outputs of 5 and 3 and an amount of 4: the larger one is taken alone. -/
def sampleUtxos : List UTXO :=
  [⟨⟨List.replicate 32 1, by simp⟩, Hash.zero, 5, [], "acct", 0⟩,
    ⟨⟨List.replicate 32 2, by simp⟩, Hash.zero, 3, [], "acct", 0⟩]

theorem optUTXOs_exact_sample :
    (sampleUtxos.map UTXO.outputID).Nodup ∧ sumAmounts sampleUtxos < 2 ^ 64 ∧
      ((4 : UInt64) = 0 → (∃ u ∈ sampleUtxos, newUtxoKeeper.isReserved u = false) →
        optUTXOs newUtxoKeeper sampleUtxos 4 = .error .nilDereference) ∧
      ((4 : UInt64) ≠ 0 → ∃ r, optUTXOs newUtxoKeeper sampleUtxos 4 = .ok r) ∧
      ∀ S a r, optUTXOs newUtxoKeeper sampleUtxos 4 = .ok (S, a, r) →
        S.Sublist ((sortByAmount sampleUtxos).filter fun u => !newUtxoKeeper.isReserved u) ∧
        S.Nodup ∧ (∀ u ∈ S, u ∈ sampleUtxos ∧ newUtxoKeeper.isReserved u = false) ∧
        a.toNat = sumAmounts S ∧ r.toNat = sumAmounts (sampleUtxos.filter newUtxoKeeper.isReserved) ∧
        ((4 : UInt64).toNat ≤ a.toNat ↔
          (4 : UInt64).toNat ≤ sumAmounts (sampleUtxos.filter fun u => !newUtxoKeeper.isReserved u)) :=
  ⟨by decide, by decide, optUTXOs_exact (by decide) (by decide)⟩

/-- An amount of zero with one unreserved output: Go dereferences the nil front of the empty
selection instead of returning. -/
theorem zeroAmount_counterexample :
    optUTXOs newUtxoKeeper sampleUtxos 0 = .error .nilDereference := by
  decide


/-! ## The reserving calls -/

/-- A successful `Reserve`: the outputs it reserves were unreserved, its wrapped sum covers the
amount, and the keeper records the reservation under the next counter value. -/
theorem reserve_eq_ok {env : KeeperEnv} {accountID : String} {assetID : Hash} {amount : UInt64}
    {useUnconfirmed : Bool} {vote : List UInt8} {exp : Nat} {uk uk' : UtxoKeeper}
    {res : Reservation}
    (h : reserve env accountID assetID amount useUnconfirmed vote exp uk = .ok (res, uk')) :
    ∃ optAmount : UInt64,
      (∀ u ∈ res.utxos, uk.reserved.lookup u.outputID = none) ∧
      optAmount.toNat = sumAmounts res.utxos % 2 ^ 64 ∧ amount ≤ optAmount ∧
      res.id = uk.nextIndex + 1 ∧ res.change = optAmount - amount ∧ res.expiry = exp ∧
      uk' = { uk with
        nextIndex := uk.nextIndex + 1
        reservations := uk.reservations.insert res.id res
        reserved := pointAll res.id res.outputIDs uk.reserved } := by
  unfold reserve at h
  simp only [bind, Except.bind, pure, Except.pure] at h
  split at h
  · cases h
  · rename_i r hr
    obtain ⟨optUtxos, optAmount, reservedAmount⟩ := r
    obtain ⟨hfree, hsum⟩ := optUTXOs_spec hr
    dsimp only at h
    split at h
    · cases h
    split at h
    · cases h
    split at h
    · cases h
    · rename_i hlt
      cases h
      exact ⟨optAmount, fun u hu => (hfree u hu).2, hsum, UInt64.not_lt.mp hlt, rfl, rfl, rfl,
        rfl⟩

/-- `findUtxo` finds the record of the output it is asked for, when the unconfirmed UTXOs are
keyed by their output IDs. -/
theorem findUtxo_outputID {env : KeeperEnv} {uk : UtxoKeeper} {outHash : Hash}
    {useUnconfirmed : Bool} {u : UTXO}
    (hkeyed : ∀ h v, uk.unconfirmed.lookup h = some v → v.outputID = h)
    (h : findUtxo env uk outHash useUnconfirmed = .ok u) : u.outputID = outHash := by
  -- each source is searched by the output ID itself
  have hfind : ∀ us : List UTXO, us.find? (·.outputID == outHash) = some u →
      u.outputID = outHash := fun us hf => by
    simpa using List.find?_some hf
  unfold findUtxo at h
  split at h
  · rename_i hv
    cases h
    exact hkeyed outHash _ hv
  · split at h
    · rename_i hv
      cases h
      exact hfind _ hv
    · split at h
      · rename_i hv
        cases h
        exact hfind _ hv
      · cases h

/-- A successful `ReserveParticular`: the output was unreserved and is found, and the keeper
records the one-output reservation under the next counter value. -/
theorem reserveParticular_eq_ok {env : KeeperEnv} {outHash : Hash} {useUnconfirmed : Bool}
    {exp : Nat} {uk uk' : UtxoKeeper} {res : Reservation}
    (h : reserveParticular env outHash useUnconfirmed exp uk = .ok (res, uk')) :
    ∃ u, uk.reserved.lookup outHash = none ∧ findUtxo env uk outHash useUnconfirmed = .ok u ∧
      res.id = uk.nextIndex + 1 ∧ res.utxos = [u] ∧ res.change = 0 ∧ res.expiry = exp ∧
      uk' = { uk with
        nextIndex := uk.nextIndex + 1
        reservations := uk.reservations.insert res.id res
        reserved := uk.reserved.insert u.outputID res.id } := by
  unfold reserveParticular at h
  simp only [bind, Except.bind, pure, Except.pure] at h
  split at h
  · cases h
  · rename_i hfree
    split at h
    · cases h
    · rename_i u hu
      split at h
      · cases h
      · cases h
        exact ⟨u, Option.not_isSome_iff_eq_none.mp hfree, hu, rfl, rfl, rfl, rfl, rfl⟩

end KuskCore.Account
