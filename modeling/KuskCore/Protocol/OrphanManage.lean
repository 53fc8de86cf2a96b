import Mathlib
import KuskCore.Casper.Checkpoint
import KuskCore.StateRun

/-!
# Orphan blocks

`protocol/orphan_manage.go` and `Chain.saveSubBlock` of `protocol/block.go`. `OrphanManage` keeps
the blocks whose parent is not saved yet (`orphan`, by hash) and, for each parent hash, the
hashes of its orphan children (`prevOrphans`). The lists are Go slices: a slice is a window on a
backing array, and `delete` removes a child with `append(prevOrphans[:i], prevOrphans[i+1:]...)`,
which shifts the later entries left inside that same array. The model keeps the backing arrays
(`arrays`) and a slice as an array index and a length, so that a reader of an old slice sees what
the code sees.

A block is named by its hash: `U h` is the block of hash `h` (`Block.Hash()` is taken to be
collision-free). The states reached by `Add`, `Delete`, `deleteLRU` and `orphanExpire`
(`Reachable`) keep `Inv`: each orphan is the block of its hash and is listed exactly once,
under its parent's hash; every listed hash is an orphan; no list is empty; and every hash in a
parent's backing array, past the list's end too, names a child of that parent.

`saveSubBlock` ranges over the slice it read at the start while each successful `saveBlock`
deletes the child from it. With three or more children that all save, the loop skips the second
child, which stays at the front of the array, and comes back to a child it already deleted:
`Get` then dereferences the missing entry (`saveSubBlock_panics`).
-/

namespace KuskCore.Protocol

/-- `numOrphanBlockLimit`. -/
def numOrphanBlockLimit : Nat := 256

/-- `orphanBlockTTL`: 60 minutes, in seconds. -/
def orphanBlockTTL : Nat := 3600

/-- `OrphanBlock`: a block and the time it expires, in seconds. -/
structure OrphanBlock where
  block : Block
  expiration : Nat

/-- A Go slice of hashes: the first `len` entries of the backing array `array`. -/
structure HashSlice where
  array : Nat
  len : Nat
  deriving DecidableEq, Repr

/-- `OrphanManage`, with the backing arrays of its slices. -/
structure OrphanManage where
  orphan : AList fun _ : Nat => OrphanBlock
  prevOrphans : AList fun _ : Nat => HashSlice
  arrays : List (List Nat)

namespace OrphanManage

/-- The backing array of a slice. -/
def backing (o : OrphanManage) (s : HashSlice) : List Nat := o.arrays.getD s.array []

/-- The hashes a slice holds. -/
def listed (o : OrphanManage) (s : HashSlice) : List Nat := (o.backing s).take s.len

/-- `NewOrphanManage`. -/
def empty : OrphanManage := ⟨∅, ∅, []⟩

/-- `OrphanManage.delete`: drop the orphan, and its hash from its parent's list. -/
def delete (o : OrphanManage) (hash : Nat) : OrphanManage :=
  match o.orphan.lookup hash with
  | none => o
  | some ob =>
    let orphan := o.orphan.erase hash
    let prev := ob.block.previousBlockHash
    match o.prevOrphans.lookup prev with
    | none => { o with orphan, prevOrphans := o.prevOrphans.erase prev }
    | some s =>
      if s.len = 1 then { o with orphan, prevOrphans := o.prevOrphans.erase prev }
      else
        match (o.listed s).idxOf? hash with
        | none => { o with orphan }
        | some i =>
          -- append(prevOrphans[:i], prevOrphans[i+1:]...) moves the later entries down in place
          { orphan
            prevOrphans := o.prevOrphans.insert prev ⟨s.array, s.len - 1⟩
            arrays := o.arrays.set s.array ((o.listed s).eraseIdx i ++ (o.backing s).drop (s.len - 1)) }

/-- The first orphan of least expiration, in the map's order. -/
def lru : List (Sigma fun _ : Nat => OrphanBlock) → Option OrphanBlock
  | [] => none
  | e :: es =>
    match lru es with
    | none => some e.2
    | some ob => if ob.expiration < e.2.expiration then some ob else some e.2

/-- `deleteLRU`. -/
def deleteLRU (o : OrphanManage) : OrphanManage :=
  match lru o.orphan.entries with
  | some ob => o.delete ob.block.hash
  | none => o

/-- `Add`: a block not yet held is stored, expiring after `orphanBlockTTL`, and appended to its
parent's list, after the least recently added orphan is dropped when the limit is reached. -/
def add (o : OrphanManage) (block : Block) (now : Nat) : OrphanManage :=
  if (o.orphan.lookup block.hash).isSome then o
  else
    let o := if o.orphan.entries.length ≥ numOrphanBlockLimit then o.deleteLRU else o
    let orphan := o.orphan.insert block.hash ⟨block, now + orphanBlockTTL⟩
    let prev := block.previousBlockHash
    -- append(o.prevOrphans[prev], &blockHash); the model writes past the list's end in place,
    -- where Go may move the list to a new array: no old slice is read afterwards
    match o.prevOrphans.lookup prev with
    | some s =>
      { orphan
        prevOrphans := o.prevOrphans.insert prev ⟨s.array, s.len + 1⟩
        arrays := o.arrays.set s.array (o.listed s ++ [block.hash] ++ (o.backing s).drop (s.len + 1)) }
    | none =>
      { orphan
        prevOrphans := o.prevOrphans.insert prev ⟨o.arrays.length, 1⟩
        arrays := o.arrays ++ [[block.hash]] }

/-- `orphanExpire`: every orphan that expired before `now` is deleted, in the map's order. -/
def orphanExpire (o : OrphanManage) (now : Nat) : OrphanManage :=
  ((o.orphan.entries.filter fun e => e.2.expiration < now).map (·.1)).foldl delete o

/-- `Get`: a missing hash makes `block.Block` dereference a nil pointer. -/
def get (o : OrphanManage) (hash : Nat) : Option Block := (o.orphan.lookup hash).map (·.block)

/-- `GetPrevOrphans`: the slice itself, sharing its backing array. -/
def getPrevOrphans (o : OrphanManage) (hash : Nat) : Option HashSlice := o.prevOrphans.lookup hash

end OrphanManage

/-! ## `saveSubBlock` -/

/-- What stops `saveSubBlock`: the nil dereference in `Get`, or the model's fuel. -/
inductive SubBlockError where
  | nilDereference
  | outOfFuel
  deriving DecidableEq, Repr

/-- The part of the chain `saveSubBlock` reads and writes: the orphans, and the blocks handed to
`saveBlock`, in order. -/
structure SubBlockState where
  orphanManage : OrphanManage
  saved : List Nat

/-- `Chain.saveBlock` as it bears on the orphans: the call is recorded, and a block that
validates and is stored is deleted from the orphans. Whether it validates is `valid`. -/
def saveBlock (valid : Block → Bool) (block : Block) (st : SubBlockState) : Bool × SubBlockState :=
  let st := { st with saved := st.saved ++ [block.hash] }
  if valid block then (true, { st with orphanManage := st.orphanManage.delete block.hash })
  else (false, st)

/-- One pass of `saveSubBlock`'s loop: the entry at index `i` of the backing array of the slice
read at the start, as it is now. -/
def subBlockPass (valid : Block → Bool) (recurse : Block → EStateM SubBlockError SubBlockState PUnit)
    (s : HashSlice) (i : Nat) : EStateM SubBlockError SubBlockState PUnit := fun st =>
  let prevOrphan := (st.orphanManage.backing s).getD i 0
  match st.orphanManage.get prevOrphan with
  | none => .error .nilDereference st
  | some orphanBlock =>
    match saveBlock valid orphanBlock st with
    | (true, st) => recurse orphanBlock st
    | (false, st) => .ok ⟨⟩ st

/-- `Chain.saveSubBlock`, with fuel. -/
def saveSubBlock (valid : Block → Bool) : Nat → Block → EStateM SubBlockError SubBlockState PUnit
  | 0, _ => fun st => .error .outOfFuel st
  | fuel + 1, block => fun st =>
    match st.orphanManage.getPrevOrphans block.hash with
    | none => .ok ⟨⟩ st
    | some s => ((List.range s.len).forM (subBlockPass valid (saveSubBlock valid fuel) s)).run st

/-! ## The invariant -/

theorem getD_set_of_ne {l : List (List Nat)} {i j : Nat} {a : List Nat} (h : j ≠ i) :
    (l.set i a).getD j [] = l.getD j [] := by
  simp [List.getD_eq_getElem?_getD, Ne.symm h]

theorem getD_set_self {l : List (List Nat)} {i : Nat} {a : List Nat} (h : i < l.length) :
    (l.set i a).getD i [] = a := by
  simp [List.getD_eq_getElem?_getD, h]

theorem lookup_erase_ite {β : Type} (m : AList fun _ : Nat => β) (k k' : Nat) :
    (m.erase k).lookup k' = if k' = k then none else m.lookup k' := by
  split_ifs with h
  · rw [h, AList.lookup_erase]
  · exact AList.lookup_erase_ne h

theorem lookup_insert_ite {β : Type} (m : AList fun _ : Nat => β) (k k' : Nat) (v : β) :
    (m.insert k v).lookup k' = if k' = k then some v else m.lookup k' := by
  split_ifs with h
  · rw [h, AList.lookup_insert]
  · exact AList.lookup_insert_ne h

theorem getD_append_singleton {l : List (List Nat)} {a : List Nat} (j : Nat) :
    (l ++ [a]).getD j [] = if j = l.length then a else l.getD j [] := by
  simp only [List.getD_eq_getElem?_getD]
  split_ifs with hj
  · simp [hj]
  · rcases Nat.lt_or_gt_of_ne hj with hlt | hlt
    · rw [List.getElem?_append_left hlt]
    · rw [List.getElem?_eq_none (by simp; omega), List.getElem?_eq_none (by omega)]

theorem idxOf?_of_mem {l : List Nat} {x : Nat} (h : x ∈ l) : l.idxOf? x = some (l.idxOf x) := by
  induction l with
  | nil => cases h
  | cons a l ih =>
    by_cases hx : a = x
    · subst hx
      simp [List.idxOf?_cons]
    · have hl : x ∈ l := by simpa [Ne.symm hx] using h
      simp [List.idxOf?_cons, hx, ih hl]

/-- The list `delete` leaves: the entry at `i` taken out of the first `len` of the array. -/
theorem length_shift {B : List Nat} {len i : Nat} (hi : i < len) (hl : len ≤ B.length) :
    ((B.take len).eraseIdx i).length = len - 1 := by
  rw [List.length_eraseIdx, List.length_take, if_pos (by omega)]
  omega

namespace OrphanManage

/-- A slice past the end of the arrays reads as empty. -/
theorem backing_of_le {o : OrphanManage} {s : HashSlice} (h : o.arrays.length ≤ s.array) :
    o.backing s = [] := by
  simp [backing, List.getD_eq_getElem?_getD, h]

theorem lookup_orphan_delete (o : OrphanManage) (hash x : Nat) :
    (o.delete hash).orphan.lookup x = if x = hash then none else o.orphan.lookup x := by
  unfold delete
  cases hob : o.orphan.lookup hash with
  | none =>
    split_ifs with hx
    · rw [hx, hob]
    · rfl
  | some ob =>
    -- every branch erases the orphan
    have herase : (o.orphan.erase hash).lookup x = if x = hash then none else o.orphan.lookup x := by
      split_ifs with hx
      · rw [hx, AList.lookup_erase]
      · exact AList.lookup_erase_ne hx
    dsimp only
    split
    · exact herase
    · split
      · exact herase
      · split <;> exact herase

/-- Deleting only ever takes entries out of a backing array, or moves them inside it. -/
theorem mem_arrays_delete {o : OrphanManage} {hash j x : Nat}
    (h : x ∈ (o.delete hash).arrays.getD j []) : x ∈ o.arrays.getD j [] := by
  unfold delete at h
  split at h
  · exact h
  · dsimp only at h
    split at h
    · exact h
    · rename_i s _
      split at h
      · exact h
      · split at h
        · exact h
        · by_cases hj : j = s.array
          · subst hj
            by_cases hlt : s.array < o.arrays.length
            · rw [getD_set_self (by simpa using hlt)] at h
              rcases List.mem_append.mp h with h | h
              · exact List.mem_of_mem_take (List.mem_of_mem_eraseIdx h)
              · exact List.mem_of_mem_drop h
            · rw [List.set_eq_of_length_le (by omega)] at h
              exact h
          · rwa [getD_set_of_ne hj] at h

theorem delete_of_not_orphan {o : OrphanManage} {hash : Nat} (h : o.orphan.lookup hash = none) :
    o.delete hash = o := by
  rw [delete, h]

theorem delete_of_single {o : OrphanManage} {hash : Nat} {ob : OrphanBlock} {s : HashSlice}
    (hob : o.orphan.lookup hash = some ob)
    (hs : o.prevOrphans.lookup ob.block.previousBlockHash = some s) (h1 : s.len = 1) :
    o.delete hash =
      { o with
        orphan := o.orphan.erase hash
        prevOrphans := o.prevOrphans.erase ob.block.previousBlockHash } := by
  simp only [delete, hob, hs, h1, if_true]

theorem delete_of_shift {o : OrphanManage} {hash : Nat} {ob : OrphanBlock} {s : HashSlice} {i : Nat}
    (hob : o.orphan.lookup hash = some ob)
    (hs : o.prevOrphans.lookup ob.block.previousBlockHash = some s) (h1 : s.len ≠ 1)
    (hi : (o.listed s).idxOf? hash = some i) :
    o.delete hash =
      { orphan := o.orphan.erase hash
        prevOrphans := o.prevOrphans.insert ob.block.previousBlockHash ⟨s.array, s.len - 1⟩
        arrays := o.arrays.set s.array ((o.listed s).eraseIdx i ++ (o.backing s).drop (s.len - 1)) } := by
  simp only [delete, hob, hs, h1, if_false, hi]

end OrphanManage

section Inv

variable (U : Nat → Block)

/-- The invariant of the reachable states. `U h` is the block of hash `h`. -/
structure OrphanManage.Inv (o : OrphanManage) : Prop where
  block : ∀ {h ob}, o.orphan.lookup h = some ob → ob.block = U h
  nodup : ∀ {k s}, o.prevOrphans.lookup k = some s → (o.listed s).Nodup
  len_pos : ∀ {k s}, o.prevOrphans.lookup k = some s → 0 < s.len
  len_le : ∀ {k s}, o.prevOrphans.lookup k = some s → s.len ≤ (o.backing s).length
  listed : ∀ {k s}, o.prevOrphans.lookup k = some s → ∀ h ∈ o.listed s, (o.orphan.lookup h).isSome
  complete : ∀ {h ob}, o.orphan.lookup h = some ob →
    ∃ s, o.prevOrphans.lookup (U h).previousBlockHash = some s ∧ h ∈ o.listed s
  backing : ∀ {k s}, o.prevOrphans.lookup k = some s → ∀ h ∈ o.backing s, (U h).previousBlockHash = k

variable {U} {o : OrphanManage}

namespace OrphanManage.Inv

theorem array_lt (hI : o.Inv U) {k : Nat} {s : HashSlice} (hs : o.prevOrphans.lookup k = some s) :
    s.array < o.arrays.length := by
  by_contra hlt
  have := hI.len_le hs
  rw [backing_of_le (by omega)] at this
  have := hI.len_pos hs
  simp at *
  omega

/-- Distinct parents have distinct backing arrays: a backing array names its parent. -/
theorem array_ne (hI : o.Inv U) {k k' : Nat} {s s' : HashSlice} (hs : o.prevOrphans.lookup k = some s)
    (hs' : o.prevOrphans.lookup k' = some s') (hk : k ≠ k') : s.array ≠ s'.array := by
  intro harr
  obtain ⟨h, hh⟩ : ∃ h, h ∈ o.backing s :=
    List.exists_mem_of_ne_nil _ (List.ne_nil_of_length_pos (by have := hI.len_pos hs; have := hI.len_le hs; omega))
  have h₁ := hI.backing hs h hh
  have h₂ := hI.backing hs' h (by rwa [OrphanManage.backing, ← harr])
  exact hk (h₁.symm.trans h₂)

theorem mem_backing_of_listed {o : OrphanManage} {s : HashSlice} {h : Nat} (hh : h ∈ o.listed s) :
    h ∈ o.backing s :=
  List.mem_of_mem_take hh

/-- A hash is listed only under its block's parent. -/
theorem not_mem_listed (hI : o.Inv U) {k : Nat} {s : HashSlice} (hs : o.prevOrphans.lookup k = some s)
    {h : Nat} (hk : (U h).previousBlockHash ≠ k) : h ∉ o.listed s :=
  fun hh => hk (hI.backing hs h (mem_backing_of_listed hh))

/-- A list of one entry holds the one orphan listed there. -/
theorem listed_eq_singleton (hI : o.Inv U) {k : Nat} {s : HashSlice} (hs : o.prevOrphans.lookup k = some s)
    (h1 : s.len = 1) {h : Nat} (hh : h ∈ o.listed s) : o.listed s = [h] := by
  have hlen : (o.listed s).length = 1 := by
    rw [OrphanManage.listed, List.length_take, h1]
    have := hI.len_le hs
    omega
  obtain ⟨x, hx⟩ := List.length_eq_one_iff.mp hlen
  rw [hx, List.mem_singleton] at hh
  rw [hx, hh]

/-- How `delete` takes out an orphan: the last entry of its parent's list takes the list away,
any other is cut out of the list in place. -/
theorem delete_cases (hI : o.Inv U) {hash : Nat} {ob : OrphanBlock}
    (hob : o.orphan.lookup hash = some ob) :
    ∃ s, o.prevOrphans.lookup (U hash).previousBlockHash = some s ∧ hash ∈ o.listed s ∧
      ((s.len = 1 ∧ o.listed s = [hash] ∧
          o.delete hash =
            { o with
              orphan := o.orphan.erase hash
              prevOrphans := o.prevOrphans.erase (U hash).previousBlockHash }) ∨
        (1 < s.len ∧
          o.delete hash =
            { orphan := o.orphan.erase hash
              prevOrphans := o.prevOrphans.insert (U hash).previousBlockHash ⟨s.array, s.len - 1⟩
              arrays := o.arrays.set s.array (((o.listed s).erase hash) ++
                (o.backing s).drop (s.len - 1)) })) := by
  obtain ⟨s, hs, hmem⟩ := hI.complete hob
  have hblock := hI.block hob
  have hs' : o.prevOrphans.lookup ob.block.previousBlockHash = some s := by rwa [hblock]
  refine ⟨s, hs, hmem, ?_⟩
  by_cases h1 : s.len = 1
  · refine .inl ⟨h1, hI.listed_eq_singleton hs h1 hmem, ?_⟩
    rw [delete_of_single hob hs' h1, hblock]
  · refine .inr ⟨by have := hI.len_pos hs; omega, ?_⟩
    rw [delete_of_shift hob hs' h1 (idxOf?_of_mem hmem), List.eraseIdx_idxOf_eq_erase, hblock]

/-- Taking away the list of one entry keeps the invariant. -/
theorem of_single (hI : o.Inv U) {x : Nat} {s : HashSlice}
    (hs : o.prevOrphans.lookup (U x).previousBlockHash = some s) (hl : o.listed s = [x])
    {o' : OrphanManage} (horph : o'.orphan = o.orphan.erase x)
    (hprev : o'.prevOrphans = o.prevOrphans.erase (U x).previousBlockHash) (harr : o'.arrays = o.arrays) :
    o'.Inv U := by
  have hback : ∀ s', o'.backing s' = o.backing s' := fun s' => by
    simp only [OrphanManage.backing, harr]
  have hlisted : ∀ s', o'.listed s' = o.listed s' := fun s' => by
    simp only [OrphanManage.listed, hback]
  -- a list that is still there is not the one taken away
  have hkeep : ∀ {k s'}, o'.prevOrphans.lookup k = some s' →
      k ≠ (U x).previousBlockHash ∧ o.prevOrphans.lookup k = some s' := fun {k s'} hk => by
    rw [hprev, lookup_erase_ite] at hk
    split_ifs at hk with hkp
    exact ⟨hkp, hk⟩
  constructor
  · intro h ob hh
    rw [horph, lookup_erase_ite] at hh
    split_ifs at hh
    exact hI.block hh
  · intro k s' hk
    rw [hlisted]
    exact hI.nodup (hkeep hk).2
  · intro k s' hk
    exact hI.len_pos (hkeep hk).2
  · intro k s' hk
    rw [hback]
    exact hI.len_le (hkeep hk).2
  · intro k s' hk h hh
    obtain ⟨hkp, hk⟩ := hkeep hk
    rw [hlisted] at hh
    have hhx : h ≠ x := by
      rintro rfl
      exact hI.not_mem_listed hk (Ne.symm hkp) hh
    rw [horph, lookup_erase_ite, if_neg hhx]
    exact hI.listed hk h hh
  · intro h ob hh
    rw [horph, lookup_erase_ite] at hh
    split_ifs at hh with hhx
    obtain ⟨s', hs', hmem⟩ := hI.complete hh
    have hp : (U h).previousBlockHash ≠ (U x).previousBlockHash := by
      intro hp
      rw [hp, hs, Option.some.injEq] at hs'
      subst hs'
      rw [hl, List.mem_singleton] at hmem
      exact hhx hmem
    refine ⟨s', ?_, by rwa [hlisted]⟩
    rw [hprev, lookup_erase_ite, if_neg hp]
    exact hs'
  · intro k s' hk
    rw [hback]
    exact hI.backing (hkeep hk).2

/-- Cutting an entry out of a longer list, and shifting the rest of the array down over it,
keeps the invariant. -/
theorem of_shift (hI : o.Inv U) {x : Nat} {s : HashSlice}
    (hs : o.prevOrphans.lookup (U x).previousBlockHash = some s) (hmem : x ∈ o.listed s)
    (h1 : 1 < s.len) {o' : OrphanManage} (horph : o'.orphan = o.orphan.erase x)
    (hprev : o'.prevOrphans = o.prevOrphans.insert (U x).previousBlockHash ⟨s.array, s.len - 1⟩)
    (harr : o'.arrays = o.arrays.set s.array ((o.listed s).erase x ++ (o.backing s).drop (s.len - 1))) :
    o'.Inv U := by
  have hnd := hI.nodup hs
  have hle := hI.len_le hs
  have hlen : ((o.listed s).erase x).length = s.len - 1 := by
    rw [List.length_erase_of_mem hmem, OrphanManage.listed, List.length_take]
    omega
  have hback : ∀ s' : HashSlice, o'.backing s' =
      if s'.array = s.array then (o.listed s).erase x ++ (o.backing s).drop (s.len - 1)
      else o.backing s' := fun s' => by
    simp only [OrphanManage.backing, harr]
    split_ifs with hj
    · rw [hj, getD_set_self (by simpa using hI.array_lt hs)]
    · exact getD_set_of_ne hj
  -- the shifted array: its list is the old one without x, its length is unchanged, and its
  -- entries all come from the old array
  have hlisted : o'.listed ⟨s.array, s.len - 1⟩ = (o.listed s).erase x := by
    rw [OrphanManage.listed, hback, if_pos rfl]
    exact List.take_left' hlen
  have hlength : (o'.backing ⟨s.array, s.len - 1⟩).length = (o.backing s).length := by
    rw [hback, if_pos rfl, List.length_append, hlen, List.length_drop]
    omega
  have hsub : ∀ h ∈ o'.backing ⟨s.array, s.len - 1⟩, h ∈ o.backing s := by
    intro h hh
    rw [hback, if_pos rfl, List.mem_append] at hh
    rcases hh with hh | hh
    · exact mem_backing_of_listed (List.mem_of_mem_erase hh)
    · exact List.mem_of_mem_drop hh
  have hother : ∀ {k s'}, k ≠ (U x).previousBlockHash → o.prevOrphans.lookup k = some s' →
      o'.backing s' = o.backing s' := fun hk hs' => by
    rw [hback, if_neg (hI.array_ne hs' hs hk)]
  have hlisted_other : ∀ {k s'}, k ≠ (U x).previousBlockHash → o.prevOrphans.lookup k = some s' →
      o'.listed s' = o.listed s' := fun hk hs' => by
    simp only [OrphanManage.listed, hother hk hs']
  constructor
  · intro h ob hh
    rw [horph, lookup_erase_ite] at hh
    split_ifs at hh
    exact hI.block hh
  · intro k s' hk
    rw [hprev, lookup_insert_ite] at hk
    split_ifs at hk with hkp
    · cases hk
      rw [hlisted]
      exact hnd.erase x
    · rw [hlisted_other hkp hk]
      exact hI.nodup hk
  · intro k s' hk
    rw [hprev, lookup_insert_ite] at hk
    split_ifs at hk with hkp
    · cases hk
      show 0 < s.len - 1
      omega
    · exact hI.len_pos hk
  · intro k s' hk
    rw [hprev, lookup_insert_ite] at hk
    split_ifs at hk with hkp
    · cases hk
      rw [hlength]
      show s.len - 1 ≤ _
      omega
    · rw [hother hkp hk]
      exact hI.len_le hk
  · intro k s' hk h hh
    rw [hprev, lookup_insert_ite] at hk
    have hx : h ≠ x ∧ (o.orphan.lookup h).isSome := by
      split_ifs at hk with hkp
      · cases hk
        rw [hlisted, hnd.mem_erase_iff] at hh
        exact ⟨hh.1, hI.listed hs h hh.2⟩
      · rw [hlisted_other hkp hk] at hh
        refine ⟨?_, hI.listed hk h hh⟩
        rintro rfl
        exact hI.not_mem_listed hk (Ne.symm hkp) hh
    rw [horph, lookup_erase_ite, if_neg hx.1]
    exact hx.2
  · intro h ob hh
    rw [horph, lookup_erase_ite] at hh
    split_ifs at hh with hhx
    obtain ⟨s', hs', hm⟩ := hI.complete hh
    rw [hprev, lookup_insert_ite]
    by_cases hp : (U h).previousBlockHash = (U x).previousBlockHash
    · rw [if_pos hp]
      rw [hp, hs, Option.some.injEq] at hs'
      subst hs'
      refine ⟨_, rfl, ?_⟩
      rw [hlisted]
      exact (List.mem_erase_of_ne hhx).mpr hm
    · rw [if_neg hp]
      exact ⟨s', hs', by rwa [hlisted_other hp hs']⟩
  · intro k s' hk h hh
    rw [hprev, lookup_insert_ite] at hk
    split_ifs at hk with hkp
    · cases hk
      rw [hkp]
      exact hI.backing hs h (hsub h hh)
    · rw [hother hkp hk] at hh
      exact hI.backing hk h hh

end OrphanManage.Inv

namespace OrphanManage.Inv

/-- Appending a new orphan to its parent's list, in place past the list's end, keeps the
invariant. -/
theorem of_append (hI : o.Inv U) {x : Nat} {ob : OrphanBlock} (hob : ob.block = U x)
    (hnew : o.orphan.lookup x = none) {s : HashSlice}
    (hs : o.prevOrphans.lookup (U x).previousBlockHash = some s) {o' : OrphanManage}
    (horph : o'.orphan = o.orphan.insert x ob)
    (hprev : o'.prevOrphans = o.prevOrphans.insert (U x).previousBlockHash ⟨s.array, s.len + 1⟩)
    (harr : o'.arrays = o.arrays.set s.array (o.listed s ++ [x] ++ (o.backing s).drop (s.len + 1))) :
    o'.Inv U := by
  have hle := hI.len_le hs
  have hlen : (o.listed s ++ [x]).length = s.len + 1 := by
    rw [List.length_append, OrphanManage.listed, List.length_take, List.length_singleton]
    omega
  have hback : ∀ s' : HashSlice, o'.backing s' =
      if s'.array = s.array then o.listed s ++ [x] ++ (o.backing s).drop (s.len + 1)
      else o.backing s' := fun s' => by
    simp only [OrphanManage.backing, harr]
    split_ifs with hj
    · rw [hj, getD_set_self (by simpa using hI.array_lt hs)]
    · exact getD_set_of_ne hj
  have hlisted : o'.listed ⟨s.array, s.len + 1⟩ = o.listed s ++ [x] := by
    rw [OrphanManage.listed, hback, if_pos rfl]
    exact List.take_left' hlen
  have hother : ∀ {k s'}, k ≠ (U x).previousBlockHash → o.prevOrphans.lookup k = some s' →
      o'.backing s' = o.backing s' := fun hk hs' => by
    rw [hback, if_neg (hI.array_ne hs' hs hk)]
  have hlisted_other : ∀ {k s'}, k ≠ (U x).previousBlockHash → o.prevOrphans.lookup k = some s' →
      o'.listed s' = o.listed s' := fun hk hs' => by
    simp only [OrphanManage.listed, hother hk hs']
  -- inserting keeps every orphan there is
  have hsome : ∀ h, (o.orphan.lookup h).isSome → (o'.orphan.lookup h).isSome := fun h hh => by
    rw [horph, lookup_insert_ite]
    split_ifs
    · rfl
    · exact hh
  constructor
  · intro h ob' hh
    rw [horph, lookup_insert_ite] at hh
    split_ifs at hh with hhx
    · cases hh
      rw [hob, hhx]
    · exact hI.block hh
  · intro k s' hk
    rw [hprev, lookup_insert_ite] at hk
    split_ifs at hk with hkp
    · cases hk
      rw [hlisted, List.nodup_append]
      refine ⟨hI.nodup hs, List.nodup_singleton x, ?_⟩
      rintro a ha b hb rfl
      rw [List.mem_singleton] at hb
      subst hb
      have := hI.listed hs a ha
      rw [hnew] at this
      cases this
    · rw [hlisted_other hkp hk]
      exact hI.nodup hk
  · intro k s' hk
    rw [hprev, lookup_insert_ite] at hk
    split_ifs at hk with hkp
    · cases hk
      exact Nat.succ_pos _
    · exact hI.len_pos hk
  · intro k s' hk
    rw [hprev, lookup_insert_ite] at hk
    split_ifs at hk with hkp
    · cases hk
      rw [hback, if_pos rfl, List.length_append, hlen, List.length_drop]
      show s.len + 1 ≤ _
      omega
    · rw [hother hkp hk]
      exact hI.len_le hk
  · intro k s' hk h hh
    rw [hprev, lookup_insert_ite] at hk
    split_ifs at hk with hkp
    · cases hk
      rw [hlisted, List.mem_append, List.mem_singleton] at hh
      rcases hh with hh | rfl
      · exact hsome h (hI.listed hs h hh)
      · rw [horph, lookup_insert_ite, if_pos rfl]
        rfl
    · rw [hlisted_other hkp hk] at hh
      exact hsome h (hI.listed hk h hh)
  · intro h ob' hh
    rw [horph, lookup_insert_ite] at hh
    rw [hprev, lookup_insert_ite]
    split_ifs at hh with hhx
    · subst hhx
      refine ⟨_, if_pos rfl, ?_⟩
      rw [hlisted]
      exact List.mem_append_right _ (List.mem_singleton_self h)
    · obtain ⟨s', hs', hm⟩ := hI.complete hh
      by_cases hp : (U h).previousBlockHash = (U x).previousBlockHash
      · rw [if_pos hp]
        rw [hp, hs, Option.some.injEq] at hs'
        subst hs'
        refine ⟨_, rfl, ?_⟩
        rw [hlisted]
        exact List.mem_append_left _ hm
      · rw [if_neg hp]
        exact ⟨s', hs', by rwa [hlisted_other hp hs']⟩
  · intro k s' hk h hh
    rw [hprev, lookup_insert_ite] at hk
    split_ifs at hk with hkp
    · cases hk
      rw [hback, if_pos rfl, List.mem_append, List.mem_append, List.mem_singleton] at hh
      rw [hkp]
      rcases hh with (hh | rfl) | hh
      · exact hI.backing hs h (mem_backing_of_listed hh)
      · rfl
      · exact hI.backing hs h (List.mem_of_mem_drop hh)
    · rw [hother hkp hk] at hh
      exact hI.backing hk h hh

/-- Starting a new list, in a new array, for a parent with no orphans keeps the invariant. -/
theorem of_new (hI : o.Inv U) {x : Nat} {ob : OrphanBlock} (hob : ob.block = U x)
    (hs : o.prevOrphans.lookup (U x).previousBlockHash = none) {o' : OrphanManage}
    (horph : o'.orphan = o.orphan.insert x ob)
    (hprev : o'.prevOrphans = o.prevOrphans.insert (U x).previousBlockHash ⟨o.arrays.length, 1⟩)
    (harr : o'.arrays = o.arrays ++ [[x]]) :
    o'.Inv U := by
  have hback : ∀ s' : HashSlice, o'.backing s' =
      if s'.array = o.arrays.length then [x] else o.backing s' := fun s' => by
    simp only [OrphanManage.backing, harr, getD_append_singleton]
  have hother : ∀ {k s'}, o.prevOrphans.lookup k = some s' → o'.backing s' = o.backing s' :=
    fun hs' => by rw [hback, if_neg (hI.array_lt hs').ne]
  have hlisted_other : ∀ {k s'}, o.prevOrphans.lookup k = some s' → o'.listed s' = o.listed s' :=
    fun hs' => by simp only [OrphanManage.listed, hother hs']
  have hkeep : ∀ {k s'}, o'.prevOrphans.lookup k = some s' →
      (k = (U x).previousBlockHash ∧ s' = ⟨o.arrays.length, 1⟩) ∨ o.prevOrphans.lookup k = some s' :=
    fun {k s'} hk => by
    rw [hprev, lookup_insert_ite] at hk
    split_ifs at hk with hkp
    · exact .inl ⟨hkp, (Option.some.inj hk).symm⟩
    · exact .inr hk
  have hlisted : o'.listed ⟨o.arrays.length, 1⟩ = [x] := by
    rw [OrphanManage.listed, hback, if_pos rfl]
    rfl
  have hsome : ∀ h, (o.orphan.lookup h).isSome → (o'.orphan.lookup h).isSome := fun h hh => by
    rw [horph, lookup_insert_ite]
    split_ifs
    · rfl
    · exact hh
  have hx : (o'.orphan.lookup x).isSome := by
    rw [horph, lookup_insert_ite, if_pos rfl]
    rfl
  constructor
  · intro h ob' hh
    rw [horph, lookup_insert_ite] at hh
    split_ifs at hh with hhx
    · cases hh
      rw [hob, hhx]
    · exact hI.block hh
  · intro k s' hk
    rcases hkeep hk with ⟨_, rfl⟩ | hk
    · rw [hlisted]
      exact List.nodup_singleton x
    · rw [hlisted_other hk]
      exact hI.nodup hk
  · intro k s' hk
    rcases hkeep hk with ⟨_, rfl⟩ | hk
    · exact Nat.one_pos
    · exact hI.len_pos hk
  · intro k s' hk
    rcases hkeep hk with ⟨_, rfl⟩ | hk
    · rw [hback, if_pos rfl]
      rfl
    · rw [hother hk]
      exact hI.len_le hk
  · intro k s' hk h hh
    rcases hkeep hk with ⟨_, rfl⟩ | hk
    · rw [hlisted, List.mem_singleton] at hh
      rw [hh]
      exact hx
    · rw [hlisted_other hk] at hh
      exact hsome h (hI.listed hk h hh)
  · intro h ob' hh
    rw [horph, lookup_insert_ite] at hh
    rw [hprev, lookup_insert_ite]
    split_ifs at hh with hhx
    · subst hhx
      refine ⟨_, if_pos rfl, ?_⟩
      rw [hlisted]
      exact List.mem_singleton_self h
    · obtain ⟨s', hs', hm⟩ := hI.complete hh
      -- the new parent had no list, so the orphans there were are listed elsewhere
      have hp : (U h).previousBlockHash ≠ (U x).previousBlockHash := by
        intro hp
        rw [hp, hs] at hs'
        cases hs'
      rw [if_neg hp]
      exact ⟨s', hs', by rwa [hlisted_other hs']⟩
  · intro k s' hk h hh
    rcases hkeep hk with ⟨rfl, rfl⟩ | hk
    · rw [hback, if_pos rfl, List.mem_singleton] at hh
      rw [hh]
    · rw [hother hk] at hh
      exact hI.backing hk h hh

end OrphanManage.Inv

theorem OrphanManage.Inv.delete (hI : o.Inv U) (x : Nat) : (o.delete x).Inv U := by
  cases hob : o.orphan.lookup x with
  | none => rwa [delete_of_not_orphan hob]
  | some ob =>
    obtain ⟨s, hs, hmem, ⟨_, hl, hd⟩ | ⟨h1, hd⟩⟩ := hI.delete_cases hob
    · rw [hd]
      exact hI.of_single hs hl rfl rfl rfl
    · rw [hd]
      exact hI.of_shift hs hmem h1 rfl rfl rfl

theorem lookup_orphan_delete_of_none {o : OrphanManage} {x h : Nat} (hh : o.orphan.lookup h = none) :
    (o.delete x).orphan.lookup h = none := by
  rw [OrphanManage.lookup_orphan_delete]
  split_ifs
  · rfl
  · exact hh

theorem OrphanManage.Inv.deleteLRU (hI : o.Inv U) : o.deleteLRU.Inv U := by
  unfold OrphanManage.deleteLRU
  split
  · exact hI.delete _
  · exact hI

theorem lookup_orphan_deleteLRU_of_none {o : OrphanManage} {h : Nat} (hh : o.orphan.lookup h = none) :
    o.deleteLRU.orphan.lookup h = none := by
  unfold OrphanManage.deleteLRU
  split
  · exact lookup_orphan_delete_of_none hh
  · exact hh

theorem OrphanManage.Inv.add (hI : o.Inv U) {block : Block} (hblock : U block.hash = block)
    (now : Nat) : (o.add block now).Inv U := by
  unfold OrphanManage.add
  by_cases hpresent : (o.orphan.lookup block.hash).isSome
  · rw [if_pos hpresent]
    exact hI
  · rw [if_neg hpresent]
    dsimp only
    generalize ho₁ : (if o.orphan.entries.length ≥ numOrphanBlockLimit then o.deleteLRU else o) = o₁
    have hnone : o.orphan.lookup block.hash = none := Option.not_isSome_iff_eq_none.mp hpresent
    -- dropping the oldest orphan first keeps the invariant, and the block is still new
    have hI₁ : o₁.Inv U := by
      rw [← ho₁]
      split_ifs
      · exact hI.deleteLRU
      · exact hI
    have hnew : o₁.orphan.lookup block.hash = none := by
      rw [← ho₁]
      split_ifs
      · exact lookup_orphan_deleteLRU_of_none hnone
      · exact hnone
    have hob : (⟨block, now + orphanBlockTTL⟩ : OrphanBlock).block = U block.hash := hblock.symm
    split
    · rename_i s hs
      exact hI₁.of_append hob hnew (by rwa [hblock]) rfl (by rw [hblock]) rfl
    · rename_i hs
      exact hI₁.of_new hob (by rwa [hblock]) rfl (by rw [hblock]) rfl

theorem OrphanManage.Inv.foldl_delete (hI : o.Inv U) (hashes : List Nat) :
    (hashes.foldl OrphanManage.delete o).Inv U := by
  induction hashes generalizing o with
  | nil => exact hI
  | cons x hashes ih => exact ih (hI.delete x)

theorem OrphanManage.Inv.orphanExpire (hI : o.Inv U) (now : Nat) : (o.orphanExpire now).Inv U :=
  hI.foldl_delete _

theorem OrphanManage.Inv.empty : OrphanManage.empty.Inv U := by
  constructor <;> intros <;> simp_all [OrphanManage.empty]

variable (U) in
/-- The states the operations of `OrphanManage` reach from `NewOrphanManage`; `Add` is given the
block of the hash it is stored under. -/
inductive OrphanManage.Reachable : OrphanManage → Prop
  | empty : Reachable OrphanManage.empty
  | add {o : OrphanManage} {block : Block} (now : Nat) :
      Reachable o → U block.hash = block → Reachable (o.add block now)
  | delete {o : OrphanManage} (hash : Nat) : Reachable o → Reachable (o.delete hash)
  | orphanExpire {o : OrphanManage} (now : Nat) : Reachable o → Reachable (o.orphanExpire now)

theorem OrphanManage.Reachable.inv (h : o.Reachable U) : o.Inv U := by
  induction h with
  | empty => exact .empty
  | add now _ hblock ih => exact ih.add hblock now
  | delete hash _ ih => exact ih.delete hash
  | orphanExpire now _ ih => exact ih.orphanExpire now

end Inv

/-! ## What a run of `saveSubBlock` changes -/

/-- From `o` to `o'` only the lists of the parents in `K` changed, inside their own arrays: the
other parents keep their lists and arrays, arrays only lose entries and keep their lengths, and no
orphan is added. -/
structure OrphanManage.Frame (K : Nat → Prop) (o o' : OrphanManage) : Prop where
  prevOrphans : ∀ {k}, ¬ K k → o'.prevOrphans.lookup k = o.prevOrphans.lookup k
  backing : ∀ {k s}, ¬ K k → o.prevOrphans.lookup k = some s → o'.backing s = o.backing s
  mem : ∀ {j x}, x ∈ o'.arrays.getD j [] → x ∈ o.arrays.getD j []
  length : ∀ j, (o'.arrays.getD j []).length = (o.arrays.getD j []).length
  orphan : ∀ {h ob}, o'.orphan.lookup h = some ob → o.orphan.lookup h = some ob

namespace OrphanManage.Frame

variable {K K' : Nat → Prop} {o o₁ o₂ : OrphanManage}

theorem refl (K : Nat → Prop) (o : OrphanManage) : o.Frame K o :=
  ⟨fun _ => rfl, fun _ _ => rfl, id, fun _ => rfl, id⟩

theorem trans (h₁ : o.Frame K o₁) (h₂ : o₁.Frame K' o₂) (hK : ∀ k, K' k → K k) : o.Frame K o₂ where
  prevOrphans hk := (h₂.prevOrphans fun hk' => hk (hK _ hk')).trans (h₁.prevOrphans hk)
  backing hk hs := by
    have hs₁ := (h₁.prevOrphans hk).trans hs
    rw [h₂.backing (fun hk' => hk (hK _ hk')) hs₁, h₁.backing hk hs]
  mem hx := h₁.mem (h₂.mem hx)
  length j := (h₂.length j).trans (h₁.length j)
  orphan hh := h₁.orphan (h₂.orphan hh)

theorem isSome_orphan (h : o.Frame K o₁) {x : Nat} (hx : (o₁.orphan.lookup x).isSome) :
    (o.orphan.lookup x).isSome := by
  obtain ⟨ob, hob⟩ := Option.isSome_iff_exists.mp hx
  rw [h.orphan hob]
  rfl

end OrphanManage.Frame

section Frame

variable {U : Nat → Block} {o : OrphanManage}

/-- Deleting an orphan whose parent is in \x60K\x60 changes only what \x60K\x60 allows. -/
theorem OrphanManage.Inv.frame_delete (hI : o.Inv U) {K : Nat → Prop} {x : Nat} {ob : OrphanBlock}
    (hob : o.orphan.lookup x = some ob) (hK : K (U x).previousBlockHash) :
    o.Frame K (o.delete x) := by
  have horphan : ∀ {h ob'}, (o.delete x).orphan.lookup h = some ob' → o.orphan.lookup h = some ob' := by
    intro h ob' hh
    rw [OrphanManage.lookup_orphan_delete] at hh
    split_ifs at hh
    exact hh
  obtain ⟨s, hs, hmem, ⟨_, _, hd⟩ | ⟨h1, hd⟩⟩ := hI.delete_cases hob
  · rw [hd] at horphan ⊢
    refine ⟨fun {k} hk => ?_, fun _ _ => rfl, id, fun _ => rfl, horphan⟩
    have hkp : k ≠ (U x).previousBlockHash := by
      rintro rfl
      exact hk hK
    exact (lookup_erase_ite _ _ _).trans (if_neg hkp)
  · have hle := hI.len_le hs
    have hlen : ((o.listed s).erase x).length = s.len - 1 := by
      rw [List.length_erase_of_mem hmem, OrphanManage.listed, List.length_take]
      omega
    have hlt : s.array < o.arrays.length := hI.array_lt hs
    rw [hd] at horphan ⊢
    constructor
    · intro k hk
      have hkp : k ≠ (U x).previousBlockHash := by
        rintro rfl
        exact hk hK
      show (o.prevOrphans.insert _ _).lookup k = _
      rw [lookup_insert_ite, if_neg hkp]
    · intro k s' hk hs'
      have hkp : k ≠ (U x).previousBlockHash := by
        rintro rfl
        exact hk hK
      exact getD_set_of_ne (hI.array_ne hs' hs hkp)
    · intro j y hy
      exact OrphanManage.mem_arrays_delete (hd ▸ hy)
    · intro j
      show ((o.arrays.set s.array _).getD j []).length = _
      by_cases hj : j = s.array
      · subst hj
        rw [getD_set_self (by simpa using hlt), List.length_append, hlen, List.length_drop]
        show _ = (o.backing s).length
        omega
      · rw [getD_set_of_ne hj]
    · exact horphan

end Frame

/-! ## Runs of `saveSubBlock` -/

theorem orphan_delete_of_some {o : OrphanManage} {x : Nat} {ob : OrphanBlock}
    (hob : o.orphan.lookup x = some ob) : (o.delete x).orphan = o.orphan.erase x := by
  unfold OrphanManage.delete
  rw [hob]
  dsimp only
  split
  · rfl
  · split
    · rfl
    · split <;> rfl

/-- Deleting an orphan takes one key away. -/
theorem length_keys_delete {o : OrphanManage} {x : Nat} {ob : OrphanBlock}
    (hob : o.orphan.lookup x = some ob) :
    (o.delete x).orphan.keys.length + 1 = o.orphan.keys.length := by
  have hx : x ∈ o.orphan.keys := by
    rw [← AList.mem_keys, ← AList.lookup_isSome, hob]
    rfl
  rw [orphan_delete_of_some hob, AList.keys_erase, List.length_erase_of_mem hx]
  have := List.length_pos_of_mem hx
  omega

section Passes

variable (valid : Block → Bool) (recurse : Block → EStateM SubBlockError SubBlockState PUnit)
  {s : HashSlice} {i : Nat} {st : SubBlockState}

theorem subBlockPass_of_none
    (h : st.orphanManage.orphan.lookup ((st.orphanManage.backing s).getD i 0) = none) :
    (subBlockPass valid recurse s i).run st = .error .nilDereference st := by
  simp only [EStateM.run, subBlockPass, OrphanManage.get, h, Option.map_none]

theorem subBlockPass_of_valid {ob : OrphanBlock}
    (h : st.orphanManage.orphan.lookup ((st.orphanManage.backing s).getD i 0) = some ob)
    (hv : valid ob.block = true) :
    (subBlockPass valid recurse s i).run st =
      (recurse ob.block).run ⟨st.orphanManage.delete ob.block.hash, st.saved ++ [ob.block.hash]⟩ := by
  simp only [EStateM.run, subBlockPass, OrphanManage.get, h, Option.map_some, saveBlock, hv, if_true]

theorem subBlockPass_of_invalid {ob : OrphanBlock}
    (h : st.orphanManage.orphan.lookup ((st.orphanManage.backing s).getD i 0) = some ob)
    (hv : valid ob.block = false) :
    (subBlockPass valid recurse s i).run st = .ok ⟨⟩ ⟨st.orphanManage, st.saved ++ [ob.block.hash]⟩ := by
  simp only [EStateM.run, subBlockPass, OrphanManage.get, h, Option.map_some, saveBlock, hv]
  rfl

theorem saveSubBlock_zero (block : Block) (st : SubBlockState) :
    (saveSubBlock valid 0 block).run st = .error .outOfFuel st := rfl

theorem saveSubBlock_of_none {fuel : Nat} {block : Block}
    (h : st.orphanManage.prevOrphans.lookup block.hash = none) :
    (saveSubBlock valid (fuel + 1) block).run st = .ok ⟨⟩ st := by
  simp only [EStateM.run, saveSubBlock, OrphanManage.getPrevOrphans, h]

theorem saveSubBlock_of_some {fuel : Nat} {block : Block}
    (h : st.orphanManage.prevOrphans.lookup block.hash = some s) :
    (saveSubBlock valid (fuel + 1) block).run st =
      ((List.range s.len).forM (subBlockPass valid (saveSubBlock valid fuel) s)).run st := by
  simp only [EStateM.run, saveSubBlock, OrphanManage.getPrevOrphans, h]

end Passes

variable {U : Nat → Block}

/-- What holds along a run of \x60saveSubBlock\x60 started from \x60o₀\x60: the invariant, changes only
to the lists of the parents in \x60K\x60, which hold every orphan's hash, and fewer orphans than the
fuel. -/
structure SubBlockInv (U : Nat → Block) (K : Nat → Prop) (o₀ : OrphanManage) (fuel : Nat)
    (st : SubBlockState) : Prop where
  inv : st.orphanManage.Inv U
  frame : o₀.Frame K st.orphanManage
  count : st.orphanManage.orphan.keys.length < fuel
  keys : ∀ {k}, (st.orphanManage.orphan.lookup k).isSome → K k

theorem SubBlockInv.start {K : Nat → Prop} {fuel : Nat} {st : SubBlockState}
    (hI : st.orphanManage.Inv U) (hfuel : st.orphanManage.orphan.keys.length < fuel)
    (hK : ∀ {k}, (st.orphanManage.orphan.lookup k).isSome → K k) :
    SubBlockInv U K st.orphanManage fuel st :=
  ⟨hI, .refl K _, hfuel, hK⟩

section Frame

variable (hU : ∀ h, (U h).hash = h) (valid : Block → Bool)
include hU

/-- One pass of the loop, for a parent \x60block\x60 in \x60K\x60, keeps the run's invariant and what the
pass reads: every hash in the array of the slice read at the start names a child of \x60block\x60, and
the array is still as long as that slice. -/
theorem subBlockPass_keeps {fuel : Nat} {K : Nat → Prop} {o₀ : OrphanManage} {block : Block}
    {s : HashSlice} {i : Nat}
    (ih : ∀ block' o₀', K block'.hash →
      EStateM.Keeps (SubBlockInv U K o₀' fuel) (· = .nilDereference) (saveSubBlock valid fuel block'))
    (hK : K block.hash) (hi : i < s.len) :
    EStateM.Keeps (fun st => SubBlockInv U K o₀ (fuel + 1) st ∧
        (∀ y ∈ st.orphanManage.backing s, (U y).previousBlockHash = block.hash) ∧
        s.len ≤ (st.orphanManage.backing s).length)
      (· = .nilDereference) (subBlockPass valid (saveSubBlock valid fuel) s i) := by
  rintro st ⟨hst, hchild, hlen⟩
  cases hob : st.orphanManage.orphan.lookup ((st.orphanManage.backing s).getD i 0) with
  | none =>
    rw [subBlockPass_of_none valid _ hob]
    refine ⟨fun _ _ h => ?_, fun _ _ h => ?_⟩
    · cases h
    · cases h
      rfl
  | some ob =>
    -- the entry read is a child of \x60block\x60, and the block stored for it is its own
    set x := (st.orphanManage.backing s).getD i 0 with hx_def
    have hx : x ∈ st.orphanManage.backing s := by
      have hi' : i < (st.orphanManage.backing s).length := by omega
      rw [hx_def, ← List.getElem_eq_getD 0]
      exact List.getElem_mem hi'
    have hblock : ob.block = U x := hst.inv.block hob
    have hhash : ob.block.hash = x := by rw [hblock, hU]
    cases hv : valid ob.block with
    | false =>
      rw [subBlockPass_of_invalid valid _ hob hv]
      refine ⟨fun _ st' h => ?_, fun _ _ h => ?_⟩
      · cases h
        exact ⟨⟨hst.inv, hst.frame, hst.count, hst.keys⟩, hchild, hlen⟩
      · cases h
    | true =>
      rw [subBlockPass_of_valid valid _ hob hv, hhash]
      -- the child is deleted, then saved recursively from the state after the delete
      set st₁ : SubBlockState := ⟨st.orphanManage.delete x, st.saved ++ [x]⟩
      have hdel : st.orphanManage.Frame K st₁.orphanManage :=
        hst.inv.frame_delete hob (by rw [hchild x hx]; exact hK)
      have hcount : st₁.orphanManage.orphan.keys.length < fuel := by
        have := length_keys_delete hob
        have := hst.count
        show (st.orphanManage.delete x).orphan.keys.length < fuel
        omega
      have hst₁ : SubBlockInv U K st₁.orphanManage fuel st₁ :=
        .start (hst.inv.delete x) hcount fun hk => hst.keys (hdel.isSome_orphan hk)
      have hKx : K ob.block.hash := by
        rw [hhash]
        exact hst.keys (by rw [hob]; rfl)
      obtain ⟨hok, herr⟩ := ih ob.block st₁.orphanManage hKx st₁ hst₁
      refine ⟨fun _ st₂ h => ?_, fun e st₂ h => herr e st₂ h⟩
      have hst₂ := hok _ st₂ h
      have hframe : st.orphanManage.Frame K st₂.orphanManage := hdel.trans hst₂.frame fun _ => id
      refine ⟨⟨hst₂.inv, hst.frame.trans hframe fun _ => id, by have := hst₂.count; omega,
        hst₂.keys⟩, fun y hy => hchild y (hframe.mem hy), ?_⟩
      rw [OrphanManage.backing, hframe.length]
      exact hlen

/-- A run of \x60saveSubBlock\x60 for a block in \x60K\x60 keeps the run's invariant, and stops only at a
nil dereference. -/
theorem saveSubBlock_keeps : ∀ (fuel : Nat) (block : Block) (o₀ : OrphanManage) {K : Nat → Prop},
    K block.hash →
      EStateM.Keeps (SubBlockInv U K o₀ fuel) (· = .nilDereference) (saveSubBlock valid fuel block)
  | 0, _, _, _, _ => fun _ hst => absurd hst.count (Nat.not_lt_zero _)
  | fuel + 1, block, o₀, K, hK => by
    intro st hst
    cases hs : st.orphanManage.prevOrphans.lookup block.hash with
    | none =>
      rw [saveSubBlock_of_none valid hs]
      refine ⟨fun _ _ h => ?_, fun _ _ h => ?_⟩
      · cases h
        exact hst
      · cases h
    | some s =>
      rw [saveSubBlock_of_some valid hs]
      have hloop : EStateM.Keeps (fun st' => SubBlockInv U K o₀ (fuel + 1) st' ∧
          (∀ y ∈ st'.orphanManage.backing s, (U y).previousBlockHash = block.hash) ∧
          s.len ≤ (st'.orphanManage.backing s).length) (· = .nilDereference)
          ((List.range s.len).forM (subBlockPass valid (saveSubBlock valid fuel) s)) :=
        EStateM.keeps_forM fun i hi =>
          subBlockPass_keeps hU valid (fun block' o₀' hK' => saveSubBlock_keeps fuel block' o₀' hK')
            hK (List.mem_range.mp hi)
      obtain ⟨hok, herr⟩ := hloop st ⟨hst, hst.inv.backing hs, hst.inv.len_le hs⟩
      exact ⟨fun u st' h => (hok u st' h).1, herr⟩

end Frame

/-! ## Three children that all save -/

/-- The first \x60n\x60 entries of a list followed by the tail of \x60R\x60 past \x60m\x60 come from the list or
from the first entries of \x60R\x60. -/
theorem mem_take_append_drop {E R : List Nat} {m n y : Nat} (hy : y ∈ (E ++ R.drop m).take n) :
    y ∈ E ∨ y ∈ R.take (m + (n - E.length)) := by
  rw [List.take_append, List.mem_append, List.take_drop] at hy
  rcases hy with hy | hy
  · exact .inl (List.mem_of_mem_take hy)
  · exact .inr (List.mem_of_mem_drop hy)

theorem SubBlockInv.len_le_backing {K : Nat → Prop} {o : OrphanManage} {fuel k : Nat} {s : HashSlice}
    {st : SubBlockState} (hst : SubBlockInv U K o fuel st) (hI : o.Inv U)
    (hs : o.prevOrphans.lookup k = some s) : s.len ≤ (st.orphanManage.backing s).length := by
  rw [OrphanManage.backing, hst.frame.length]
  exact hI.len_le hs

/-- Before pass \x60i\x60 of the loop over the children of \x60block\x60, when every child so far has saved:
the list has lost one entry per pass, the child \x60c\x60 that the first delete moved to the front is
still there, and no other of the first \x60s.len\x60 places of the array holds it. -/
structure Stuck (U : Nat → Block) (o : OrphanManage) (block : Block) (s : HashSlice) (fuel c i : Nat)
    (st : SubBlockState) : Prop where
  run : SubBlockInv U (fun k => k = block.hash ∨ (o.orphan.lookup k).isSome) o fuel st
  slice : st.orphanManage.prevOrphans.lookup block.hash = some ⟨s.array, s.len - i⟩
  lt : i < s.len
  front : ∃ R, st.orphanManage.backing s = c :: R ∧ c ∉ R.take (s.len - 1)

section Panic

variable (hU : ∀ h, (U h).hash = h) (valid : Block → Bool)
include hU

/-- The recursive call on a child leaves alone the list of any parent that is not an orphan and is
not the child. -/
theorem saveSubBlock_keeps_other {fuel x : Nat} {st₁ st₂ : SubBlockState} {u : PUnit}
    (hI : st₁.orphanManage.Inv U) (hcount : st₁.orphanManage.orphan.keys.length < fuel)
    (hrun : (saveSubBlock valid fuel (U x)).run st₁ = .ok u st₂) {k : Nat} (hkx : k ≠ x)
    (hk : st₁.orphanManage.orphan.lookup k = none) :
    st₂.orphanManage.prevOrphans.lookup k = st₁.orphanManage.prevOrphans.lookup k ∧
      ∀ {s}, st₁.orphanManage.prevOrphans.lookup k = some s →
        st₂.orphanManage.backing s = st₁.orphanManage.backing s := by
  have hst := (saveSubBlock_keeps hU valid fuel (U x) st₁.orphanManage
    (K := fun k' => k' = x ∨ (st₁.orphanManage.orphan.lookup k').isSome) (.inl (hU x)) st₁
    (.start hI hcount fun h => .inr h)).1 u st₂ hrun
  have hnK : ¬ (k = x ∨ (st₁.orphanManage.orphan.lookup k).isSome) := by
    rintro (h | h)
    · exact hkx h
    · rw [hk] at h
      cases h
  exact ⟨hst.frame.prevOrphans hnK, fun hs => hst.frame.backing hnK hs⟩

variable {o : OrphanManage} {block : Block} {s : HashSlice} {fuel : Nat}

/-- A pass over the children of \x60block\x60 that gets through has read an orphan child, deleted it
and saved its own children. -/
theorem subBlockPass_ok (hI : o.Inv U) (hs : o.prevOrphans.lookup block.hash = some s)
    (hvalid : ∀ h ∈ o.listed s, valid (U h) = true) {i : Nat} {st st₂ : SubBlockState} {u : PUnit}
    (hst : SubBlockInv U (fun k => k = block.hash ∨ (o.orphan.lookup k).isSome) o (fuel + 1) st)
    (hi : i < s.len) (hrun : (subBlockPass valid (saveSubBlock valid fuel) s i).run st = .ok u st₂) :
    ∃ x ob, (st.orphanManage.backing s).getD i 0 = x ∧ x ∈ st.orphanManage.backing s ∧
      st.orphanManage.orphan.lookup x = some ob ∧ (U x).previousBlockHash = block.hash ∧
      (saveSubBlock valid fuel (U x)).run ⟨st.orphanManage.delete x, st.saved ++ [x]⟩ = .ok u st₂ ∧
      SubBlockInv U (fun k => k = block.hash ∨ (o.orphan.lookup k).isSome) o (fuel + 1) st₂ := by
  have hchild : ∀ y ∈ st.orphanManage.backing s, (U y).previousBlockHash = block.hash :=
    fun y hy => hI.backing hs y (hst.frame.mem hy)
  have hlen := hst.len_le_backing hI hs
  have hst₂ := (subBlockPass_keeps hU valid (fun b o' hK => saveSubBlock_keeps hU valid fuel b o' hK)
    (.inl rfl) hi st ⟨hst, hchild, hlen⟩).1 u st₂ hrun
  obtain ⟨x, hx⟩ : ∃ x, (st.orphanManage.backing s).getD i 0 = x := ⟨_, rfl⟩
  have hxmem : x ∈ st.orphanManage.backing s := by
    rw [← hx, ← List.getElem_eq_getD 0]
    exact List.getElem_mem (by omega)
  cases hob : st.orphanManage.orphan.lookup x with
  | none =>
    rw [subBlockPass_of_none valid _ (hx ▸ hob)] at hrun
    cases hrun
  | some ob =>
    have hblock := hst.inv.block hob
    -- the child was listed under \x60block\x60 at the start, so it validates
    have hv : valid ob.block = true := by
      obtain ⟨s', hs', hm⟩ := hI.complete (hst.frame.orphan hob)
      rw [hchild x hxmem, hs, Option.some.injEq] at hs'
      subst hs'
      rw [hblock]
      exact hvalid x hm
    rw [subBlockPass_of_valid valid _ (hx ▸ hob) hv, hblock, hU] at hrun
    exact ⟨x, ob, hx, hxmem, hob, hchild x hxmem, hrun, hst₂.1⟩

/-- After a child is cut out of the list under \x60block\x60 and its own children are saved, the list
under \x60block\x60 is one shorter and its array is the shifted one. -/
theorem shift_then_save (hb : o.orphan.lookup block.hash = none) {x : Nat} {ob : OrphanBlock} {s' : HashSlice} {st st₂ : SubBlockState}
    {u : PUnit}
    (hst : SubBlockInv U (fun k => k = block.hash ∨ (o.orphan.lookup k).isSome) o (fuel + 1) st)
    (hob : st.orphanManage.orphan.lookup x = some ob) (hprev : (U x).previousBlockHash = block.hash)
    (hslice : st.orphanManage.prevOrphans.lookup block.hash = some s')
    (hd : st.orphanManage.delete x =
      { orphan := st.orphanManage.orphan.erase x
        prevOrphans := st.orphanManage.prevOrphans.insert (U x).previousBlockHash ⟨s'.array, s'.len - 1⟩
        arrays := st.orphanManage.arrays.set s'.array ((st.orphanManage.listed s').erase x ++
          (st.orphanManage.backing s').drop (s'.len - 1)) })
    (hrec : (saveSubBlock valid fuel (U x)).run ⟨st.orphanManage.delete x, st.saved ++ [x]⟩ = .ok u st₂) :
    st₂.orphanManage.prevOrphans.lookup block.hash = some ⟨s'.array, s'.len - 1⟩ ∧
      st₂.orphanManage.backing s' =
        (st.orphanManage.listed s').erase x ++ (st.orphanManage.backing s').drop (s'.len - 1) := by
  have hbst : st.orphanManage.orphan.lookup block.hash = none := by
    cases h : st.orphanManage.orphan.lookup block.hash with
    | none => rfl
    | some ob' => rw [hst.frame.orphan h] at hb; cases hb
  have hbx : block.hash ≠ x := by
    rintro rfl
    rw [hbst] at hob
    cases hob
  have hcount : (st.orphanManage.delete x).orphan.keys.length < fuel := by
    have := length_keys_delete hob
    have := hst.count
    omega
  have hslice₁ : (st.orphanManage.delete x).prevOrphans.lookup block.hash = some ⟨s'.array, s'.len - 1⟩ := by
    rw [hd, ← hprev]
    exact AList.lookup_insert _
  obtain ⟨hprev₂, hback₂⟩ := saveSubBlock_keeps_other hU valid (hst.inv.delete x) hcount hrec hbx
    (lookup_orphan_delete_of_none hbst)
  refine ⟨hprev₂.trans hslice₁, ?_⟩
  rw [show st₂.orphanManage.backing s' = st₂.orphanManage.backing ⟨s'.array, s'.len - 1⟩ from rfl,
    hback₂ hslice₁, hd]
  exact getD_set_self (by simpa using hst.inv.array_lt hslice)

/-- The first pass deletes the first child and shifts the second to the front of the array. -/
theorem stuck_of_first (hI : o.Inv U) (hb : o.orphan.lookup block.hash = none)
    (hs : o.prevOrphans.lookup block.hash = some s) (hvalid : ∀ h ∈ o.listed s, valid (U h) = true)
    (h3 : 3 ≤ s.len) {saved : List Nat} (hfuel : o.orphan.keys.length < fuel + 1)
    {st₂ : SubBlockState} {u : PUnit}
    (hrun : (subBlockPass valid (saveSubBlock valid fuel) s 0).run ⟨o, saved⟩ = .ok u st₂) :
    ∃ c, Stuck U o block s (fuel + 1) c 1 st₂ := by
  have hst₀ : SubBlockInv U (fun k => k = block.hash ∨ (o.orphan.lookup k).isSome) o (fuel + 1)
      ⟨o, saved⟩ := @SubBlockInv.start U _ _ ⟨o, saved⟩ hI hfuel fun h => Or.inr h
  obtain ⟨x, ob, hx, -, hob, hprev, hrec, hst₂⟩ :=
    subBlockPass_ok hU valid hI hs hvalid hst₀ (by omega) hrun
  have hlen := hI.len_le hs
  obtain ⟨c₀, c₁, R, hB⟩ : ∃ c₀ c₁ R, o.backing s = c₀ :: c₁ :: R := by
    rcases hB : o.backing s with _ | ⟨c₀, _ | ⟨c₁, R⟩⟩
    · rw [hB] at hlen
      simp at hlen
      omega
    · rw [hB] at hlen
      simp at hlen
      omega
    · exact ⟨c₀, c₁, R, rfl⟩
  obtain ⟨k, hk⟩ : ∃ k, s.len = k + 3 := ⟨s.len - 3, by omega⟩
  have hRlen : k + 1 ≤ R.length := by
    rw [hB] at hlen
    simp only [List.length_cons] at hlen
    omega
  have hlisted : o.listed s = c₀ :: c₁ :: R.take (k + 1) := by
    rw [OrphanManage.listed, hB, hk, List.take_succ_cons, List.take_succ_cons]
  have hx₀ : x = c₀ := by
    rw [← hx]
    show (o.backing s).getD 0 0 = c₀
    rw [hB]
    rfl
  subst hx₀
  -- the second child appears once among the first entries
  have hc₁ : c₁ ∉ R.take (k + 1) := by
    have hnd := hI.nodup hs
    rw [hlisted] at hnd
    exact (List.nodup_cons.mp (List.nodup_cons.mp hnd).2).1
  obtain ⟨s', hs', hm, ⟨h1, _, _⟩ | ⟨h1, hd⟩⟩ := hI.delete_cases hob
  · rw [hprev, hs, Option.some.injEq] at hs'
    subst hs'
    omega
  · rw [hprev, hs, Option.some.injEq] at hs'
    subst hs'
    obtain ⟨hslice₂, hback₂⟩ := shift_then_save hU valid hb hst₀ hob hprev hs hd hrec
    dsimp only at hback₂
    have hnew : st₂.orphanManage.backing s = c₁ :: (R.take (k + 1) ++ R.drop k) := by
      rw [hback₂, hlisted, List.erase_cons_head, hB, hk, show k + 3 - 1 = k + 1 + 1 by omega,
        List.drop_succ_cons, List.drop_succ_cons]
      rfl
    refine ⟨c₁, hst₂, hslice₂, by omega, R.take (k + 1) ++ R.drop k, hnew, fun hmem => ?_⟩
    rcases mem_take_append_drop hmem with h | h
    · exact hc₁ h
    · rw [List.length_take, show k + (s.len - 1 - min (k + 1) R.length) = k + 1 by omega] at h
      exact hc₁ h

/-- A later pass reads past the front, deletes what it reads and leaves the front alone. -/
theorem Stuck.pass (hI : o.Inv U) (hb : o.orphan.lookup block.hash = none)
    (hs : o.prevOrphans.lookup block.hash = some s) (hvalid : ∀ h ∈ o.listed s, valid (U h) = true)
    {c i : Nat} {st st₂ : SubBlockState} {u : PUnit} (h : Stuck U o block s (fuel + 1) c i st)
    (hi : 1 ≤ i) (hrun : (subBlockPass valid (saveSubBlock valid fuel) s i).run st = .ok u st₂) :
    Stuck U o block s (fuel + 1) c (i + 1) st₂ := by
  obtain ⟨R, hB, hc⟩ := h.front
  obtain ⟨x, ob, hx, -, hob, hprev, hrec, hst₂⟩ :=
    subBlockPass_ok hU valid hI hs hvalid h.run h.lt hrun
  have hlen := h.run.len_le_backing hI hs
  rw [hB, List.length_cons] at hlen
  have hlt := h.lt
  -- the entry read sits past the front, where \x60c\x60 is not
  have hxR : x ∈ R.take (s.len - 1) := by
    obtain ⟨i', rfl⟩ : ∃ i', i = i' + 1 := ⟨i - 1, by omega⟩
    have hi' : i' < (R.take (s.len - 1)).length := by
      rw [List.length_take]
      omega
    have hget : (R.take (s.len - 1))[i'] = x := by
      rw [List.getElem_take, List.getElem_eq_getD 0, ← List.getD_cons_succ (x := c), ← hB, hx]
    rw [← hget]
    exact List.getElem_mem hi'
  have hxc : x ≠ c := fun hxc => hc (hxc ▸ hxR)
  obtain ⟨s', hs', hm, ⟨_, hl, _⟩ | ⟨h1, hd⟩⟩ := h.run.inv.delete_cases hob
  · -- a list of one entry would hold only \x60c\x60
    rw [hprev, h.slice, Option.some.injEq] at hs'
    subst hs'
    obtain ⟨k, hk⟩ : ∃ k, s.len - i = k + 1 := ⟨s.len - i - 1, by omega⟩
    have hl' : (c :: R).take (k + 1) = [x] := by
      rw [← hk, ← hB]
      exact hl
    rw [List.take_succ_cons, List.cons.injEq] at hl'
    exact absurd hl'.1.symm hxc
  · rw [hprev, h.slice, Option.some.injEq] at hs'
    subst hs'
    have h1' : 1 < s.len - i := h1
    obtain ⟨k, hk⟩ : ∃ k, s.len - i = k + 2 := ⟨s.len - i - 2, by omega⟩
    obtain ⟨hslice₂, hback₂⟩ := shift_then_save hU valid hb h.run hob hprev h.slice hd hrec
    dsimp only at hslice₂ hback₂
    have hlisted : st.orphanManage.listed ⟨s.array, s.len - i⟩ = c :: R.take (k + 1) := by
      show (st.orphanManage.backing s).take (s.len - i) = _
      rw [hB, hk, List.take_succ_cons]
    have hxk : x ∈ R.take (k + 1) := by
      rw [hlisted, List.mem_cons] at hm
      exact hm.resolve_left hxc
    have hE : ((R.take (k + 1)).erase x).length = k := by
      rw [List.length_erase_of_mem hxk, List.length_take]
      omega
    have hnew : st₂.orphanManage.backing s = c :: ((R.take (k + 1)).erase x ++ R.drop k) := by
      show st₂.orphanManage.backing ⟨s.array, s.len - i⟩ = _
      rw [hback₂, hlisted, List.erase_cons_tail (by simpa using Ne.symm hxc)]
      show c :: ((R.take (k + 1)).erase x ++ (st.orphanManage.backing s).drop (s.len - i - 1)) = _
      rw [hB, show s.len - i - 1 = k + 1 by omega, List.drop_succ_cons]
    refine ⟨hst₂, ?_, by omega, _, hnew, fun hmem => ?_⟩
    · rw [hslice₂, show s.len - i - 1 = s.len - (i + 1) by omega]
    · rcases mem_take_append_drop hmem with h | h
      · exact hc ((List.take_sublist_take_left (by omega)).subset (List.mem_of_mem_erase h))
      · rw [hE, show k + (s.len - 1 - k) = s.len - 1 by omega] at h
        exact hc h

/-- No run of the remaining passes gets to the end. -/
theorem Stuck.forM_ne_ok (hI : o.Inv U) (hb : o.orphan.lookup block.hash = none)
    (hs : o.prevOrphans.lookup block.hash = some s) (hvalid : ∀ h ∈ o.listed s, valid (U h) = true) :
    ∀ (m : Nat) {c i : Nat} {st st' : SubBlockState} {u : PUnit},
      Stuck U o block s (fuel + 1) c i st → 1 ≤ i → i + m = s.len →
        ((List.range' i m).forM (subBlockPass valid (saveSubBlock valid fuel) s)).run st ≠ .ok u st'
  | 0, _, _, _, _, _, h, _, hm => fun _ => by
    have := h.lt
    omega
  | m + 1, _, _, _, _, _, h, hi, hm => fun hrun => by
    rw [List.range'_succ, EStateM.run_forM_cons_eq_ok] at hrun
    obtain ⟨st₁, h₁, h₂⟩ := hrun
    exact Stuck.forM_ne_ok hI hb hs hvalid m (Stuck.pass hU valid hI hb hs hvalid h hi h₁) (by omega)
      (by omega) h₂

/-- With three or more children of \x60block\x60 that all validate, \x60saveSubBlock\x60 stops at the nil
dereference in \x60Get\x60, from every state the invariant holds in, whatever orphans the children
have, for any fuel above the number of orphans. -/
theorem saveSubBlock_panics (hI : o.Inv U) (hb : o.orphan.lookup block.hash = none)
    (hs : o.prevOrphans.lookup block.hash = some s) (h3 : 3 ≤ s.len)
    (hvalid : ∀ h ∈ o.listed s, valid (U h) = true) (saved : List Nat) (fuel : Nat)
    (hfuel : o.orphan.keys.length < fuel) :
    ∃ st', (saveSubBlock valid fuel block).run ⟨o, saved⟩ = .error .nilDereference st' := by
  obtain ⟨fuel, rfl⟩ : ∃ f, fuel = f + 1 := ⟨fuel - 1, by omega⟩
  have hkeeps := saveSubBlock_keeps hU valid (fuel + 1) block o
    (K := fun k => k = block.hash ∨ (o.orphan.lookup k).isSome) (.inl rfl) ⟨o, saved⟩
    (@SubBlockInv.start U _ _ ⟨o, saved⟩ hI hfuel fun h => Or.inr h)
  cases hrun : (saveSubBlock valid (fuel + 1) block).run ⟨o, saved⟩ with
  | ok u st' =>
    exfalso
    -- the first pass, then the passes that cannot all get through
    rw [saveSubBlock_of_some valid hs, List.range_eq_range', show s.len = s.len - 1 + 1 by omega,
      List.range'_succ, Nat.zero_add, EStateM.run_forM_cons_eq_ok] at hrun
    obtain ⟨st₁, h₁, h₂⟩ := hrun
    obtain ⟨c, hc⟩ := stuck_of_first hU valid hI hb hs hvalid h3 hfuel h₁
    exact Stuck.forM_ne_ok hU valid hI hb hs hvalid (s.len - 1) hc le_rfl (by omega) h₂
  | error e st' =>
    rw [hkeeps.2 e st' hrun]
    exact ⟨st', rfl⟩

end Panic

/-- A child of the block of hash 1. -/
def sampleChild (h : Nat) : Block := ⟨1, h, 1, 0, [], []⟩

/-- The block of hash 1, just saved. -/
def sampleParent : Block := ⟨0, 1, 0, 0, [], []⟩

/-- Three orphan children of \x60sampleParent\x60, added in turn. -/
def sampleOrphans : OrphanManage :=
  ((OrphanManage.empty.add (sampleChild 11) 0).add (sampleChild 12) 0).add (sampleChild 13) 0

theorem sampleOrphans_reachable : sampleOrphans.Reachable sampleChild :=
  .add 0 (.add 0 (.add 0 .empty rfl) rfl) rfl

theorem saveSubBlock_panics_sample :
    ∃ st', (saveSubBlock (fun _ => true) 10 sampleParent).run ⟨sampleOrphans, []⟩ =
      .error .nilDereference st' :=
  saveSubBlock_panics (fun _ => rfl) (fun _ => true) (OrphanManage.Reachable.inv sampleOrphans_reachable) rfl rfl (by decide)
    (fun _ _ => rfl) [] 10 (by decide)

/-- The three children 11, 12 and 13: 11 is saved, 12 moves to the front and is skipped, 13 is saved,
and the third pass reads 13 again and dereferences its missing entry. -/
theorem threeChildren_counterexample :
    ∃ o', (saveSubBlock (fun _ => true) 10 sampleParent).run ⟨sampleOrphans, []⟩ =
      .error .nilDereference ⟨o', [11, 13]⟩ :=
  ⟨_, rfl⟩

end KuskCore.Protocol
