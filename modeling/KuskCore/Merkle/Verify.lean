import KuskCore.Merkle.Tree

/-!
# Checking a Merkle proof

`getMerkleRootByProof` consumes three queues from the front (proof hashes, flags and the leaf
hashes of the related leaves) and recomputes a root: `FlagAssist` takes a hash, `FlagTxLeaf`
takes a hash that must equal the next related hash, and `FlagTxParent` recomputes two children.
`validateMerkleTreeProof` accepts when that root is the expected one and every related hash was
consumed. Each call takes a flag before it recurses, so the fuel `flags.length + 1` that
`validateMerkleTreeProof` gives never runs out, and any more fuel gives the same answer
(`getMerkleRootByProof_fuel`).

Completeness (`validateMerkleTreeProof_complete`): the proof `getMerkleTreeProof` emits for a
sublist of the leaves is accepted, when the leaves and their leaf hashes are distinct. Each
subtree's part of the proof recomputes the subtree's hash and consumes exactly its related leaves
(`getMerkleRootByProof_proof`).
-/

namespace KuskCore.Merkle

/-- The three queues of `getMerkleRootByProof`. -/
structure Queues (H : Type) where
  hashes : List H
  flags : List UInt8
  related : List H

section Verify

variable {T H : Type} [DecidableEq H] (interiorHash : H → H → H) (emptyHash : H)

/-- `getMerkleRootByProof`, with fuel for the recursion. A `FlagTxLeaf` whose hash is not the
next related hash returns the empty hash and leaves both queues as they are. -/
def getMerkleRootByProof : Nat → Queues H → H × Queues H
  | 0, q => (emptyHash, q)
  | fuel + 1, ⟨hashes, flags, related⟩ =>
    match flags, hashes with
    | flag :: flags, hash :: hashes =>
      if flag = flagAssist then (hash, ⟨hashes, flags, related⟩)
      else if flag = flagTxLeaf then
        match related with
        | [] => (emptyHash, ⟨hash :: hashes, flags, []⟩)
        | relatedHash :: related =>
          if hash = relatedHash then (hash, ⟨hashes, flags, related⟩)
          else (emptyHash, ⟨hash :: hashes, flags, relatedHash :: related⟩)
      else if flag = flagTxParent then
        let (leftHash, q) := getMerkleRootByProof fuel ⟨hash :: hashes, flags, related⟩
        let (rightHash, q) := getMerkleRootByProof fuel q
        (interiorHash leftHash rightHash, q)
      else (emptyHash, ⟨hash :: hashes, flags, related⟩)
    | _, _ => (emptyHash, ⟨hashes, flags, related⟩)

/-- `validateMerkleTreeProof`. -/
def validateMerkleTreeProof (leafHash : T → H) (hashes : List H) (flags : List UInt8)
    (relatedNodes : List T) (rootHash : H) : Bool :=
  let (root, q) := getMerkleRootByProof interiorHash emptyHash (flags.length + 1)
    ⟨hashes, flags, relatedNodes.map leafHash⟩
  root == rootHash && q.related.length == 0

theorem validateMerkleTreeProof_eq (leafHash : T → H) (hashes : List H) (flags : List UInt8)
    (relatedNodes : List T) (rootHash : H) :
    validateMerkleTreeProof interiorHash emptyHash leafHash hashes flags relatedNodes rootHash =
      let r := getMerkleRootByProof interiorHash emptyHash (flags.length + 1)
        ⟨hashes, flags, relatedNodes.map leafHash⟩
      (r.1 == rootHash && r.2.related.length == 0) := rfl

/-! ### One call -/

section Call

variable {fuel : Nat} {flag : UInt8} {hash : H} {hashes related : List H} {flags : List UInt8}

theorem getMerkleRootByProof_exhausted {q : Queues H} (h : q.flags = [] ∨ q.hashes = []) :
    getMerkleRootByProof interiorHash emptyHash (fuel + 1) q = (emptyHash, q) := by
  obtain ⟨hashes, flags, related⟩ := q
  rcases h with h | h
  · simp only at h
    subst h
    rfl
  · simp only at h
    subst h
    cases flags <;> rfl

theorem getMerkleRootByProof_assist :
    getMerkleRootByProof interiorHash emptyHash (fuel + 1)
      ⟨hash :: hashes, flagAssist :: flags, related⟩ = (hash, ⟨hashes, flags, related⟩) := rfl

theorem getMerkleRootByProof_leaf_nil :
    getMerkleRootByProof interiorHash emptyHash (fuel + 1) ⟨hash :: hashes, flagTxLeaf :: flags, []⟩ =
      (emptyHash, ⟨hash :: hashes, flags, []⟩) := rfl

theorem getMerkleRootByProof_leaf {relatedHash : H} :
    getMerkleRootByProof interiorHash emptyHash (fuel + 1)
      ⟨hash :: hashes, flagTxLeaf :: flags, relatedHash :: related⟩ =
      if hash = relatedHash then (hash, ⟨hashes, flags, related⟩)
      else (emptyHash, ⟨hash :: hashes, flags, relatedHash :: related⟩) := rfl

theorem getMerkleRootByProof_parent :
    getMerkleRootByProof interiorHash emptyHash (fuel + 1)
      ⟨hash :: hashes, flagTxParent :: flags, related⟩ =
      let left := getMerkleRootByProof interiorHash emptyHash fuel ⟨hash :: hashes, flags, related⟩
      let right := getMerkleRootByProof interiorHash emptyHash fuel left.2
      (interiorHash left.1 right.1, right.2) := rfl

theorem getMerkleRootByProof_other (h₀ : flag ≠ flagAssist) (h₁ : flag ≠ flagTxLeaf)
    (h₂ : flag ≠ flagTxParent) :
    getMerkleRootByProof interiorHash emptyHash (fuel + 1) ⟨hash :: hashes, flag :: flags, related⟩ =
      (emptyHash, ⟨hash :: hashes, flags, related⟩) := by
  simp only [getMerkleRootByProof, h₀, h₁, h₂, if_false]

end Call

/-- The cases of one call with fuel: what it returns and what it leaves of the queues. Every
flag but a parent returns without recursing; a leaf hash that is not the next related hash, and a
flag that is none of the three, return the empty hash after taking the flag. -/
theorem getMerkleRootByProof_cases (fuel : Nat) (q : Queues H) {r : H × Queues H}
    (hr : getMerkleRootByProof interiorHash emptyHash (fuel + 1) q = r) :
    r = (emptyHash, q) ∨
      (∃ hash hashes flags, q.hashes = hash :: hashes ∧ q.flags = flagAssist :: flags ∧
        r = (hash, ⟨hashes, flags, q.related⟩)) ∨
      (∃ hash hashes flags related, q.hashes = hash :: hashes ∧ q.flags = flagTxLeaf :: flags ∧
        q.related = hash :: related ∧ r = (hash, ⟨hashes, flags, related⟩)) ∨
      (∃ flags, q.hashes ≠ [] ∧ q.flags = flagTxParent :: flags ∧
        let left := getMerkleRootByProof interiorHash emptyHash fuel ⟨q.hashes, flags, q.related⟩
        let right := getMerkleRootByProof interiorHash emptyHash fuel left.2
        r = (interiorHash left.1 right.1, right.2)) ∨
      (∃ flag flags, q.hashes ≠ [] ∧ q.flags = flag :: flags ∧
        r = (emptyHash, ⟨q.hashes, flags, q.related⟩)) := by
  subst hr
  obtain ⟨hashes, flags, related⟩ := q
  match flags, hashes with
  | [], _ => exact .inl (getMerkleRootByProof_exhausted interiorHash emptyHash (.inl rfl))
  | _ :: _, [] => exact .inl (getMerkleRootByProof_exhausted interiorHash emptyHash (.inr rfl))
  | flag :: flags, hash :: hashes =>
    have hne : hash :: hashes ≠ [] := List.cons_ne_nil _ _
    by_cases h₀ : flag = flagAssist
    · subst h₀
      exact .inr (.inl ⟨hash, hashes, flags, rfl, rfl, rfl⟩)
    by_cases h₁ : flag = flagTxLeaf
    · subst h₁
      match related with
      | [] => exact .inr (.inr (.inr (.inr ⟨flagTxLeaf, flags, hne, rfl, rfl⟩)))
      | relatedHash :: related =>
        by_cases he : hash = relatedHash
        · subst he
          refine .inr (.inr (.inl ⟨hash, hashes, flags, related, rfl, rfl, rfl, ?_⟩))
          rw [getMerkleRootByProof_leaf, if_pos rfl]
        · refine .inr (.inr (.inr (.inr ⟨flagTxLeaf, flags, hne, rfl, ?_⟩)))
          rw [getMerkleRootByProof_leaf, if_neg he]
    by_cases h₂ : flag = flagTxParent
    · subst h₂
      exact .inr (.inr (.inr (.inl ⟨flags, hne, rfl, rfl⟩)))
    · exact .inr (.inr (.inr (.inr ⟨flag, flags, hne, rfl,
        getMerkleRootByProof_other interiorHash emptyHash h₀ h₁ h₂⟩)))

/-! ### What a run consumes -/

/-- A run takes flags from the front, and related hashes from the front. -/
theorem getMerkleRootByProof_consumes : ∀ (fuel : Nat) (q : Queues H),
    (getMerkleRootByProof interiorHash emptyHash fuel q).2.flags.length ≤ q.flags.length ∧
      ∃ c, q.related = c ++ (getMerkleRootByProof interiorHash emptyHash fuel q).2.related
  | 0, q => ⟨Nat.le_refl _, [], rfl⟩
  | fuel + 1, q => by
    rcases getMerkleRootByProof_cases interiorHash emptyHash fuel q rfl with
      h | ⟨_, _, _, -, hf, h⟩ | ⟨hash, _, _, _, -, hf, hm, h⟩ | ⟨flags, -, hf, h⟩ |
        ⟨_, _, -, hf, h⟩
    · rw [h]
      exact ⟨Nat.le_refl _, [], rfl⟩
    · rw [h, hf]
      exact ⟨Nat.le_succ _, [], rfl⟩
    · rw [h, hf, hm]
      exact ⟨Nat.le_succ _, [hash], rfl⟩
    · -- the two children, one after the other
      rw [h]
      obtain ⟨hl₁, cl, hcl⟩ := getMerkleRootByProof_consumes fuel ⟨q.hashes, flags, q.related⟩
      obtain ⟨hr₁, cr, hcr⟩ := getMerkleRootByProof_consumes fuel
        (getMerkleRootByProof interiorHash emptyHash fuel ⟨q.hashes, flags, q.related⟩).2
      refine ⟨?_, cl ++ cr, ?_⟩
      · rw [hf, List.length_cons]
        exact Nat.le_succ_of_le (Nat.le_trans hr₁ hl₁)
      · rw [List.append_assoc, ← hcr]
        exact hcl
    · rw [h, hf]
      exact ⟨Nat.le_succ _, [], rfl⟩

/-- With more fuel than flags, a run never reaches the end of its fuel: any two such fuels give
the same result. -/
theorem getMerkleRootByProof_fuel : ∀ (fuel₁ fuel₂ : Nat) (q : Queues H),
    q.flags.length < fuel₁ → q.flags.length < fuel₂ →
    getMerkleRootByProof interiorHash emptyHash fuel₁ q =
      getMerkleRootByProof interiorHash emptyHash fuel₂ q
  | 0, _, _, h, _ => absurd h (Nat.not_lt_zero _)
  | _, 0, _, _, h => absurd h (Nat.not_lt_zero _)
  | fuel₁ + 1, fuel₂ + 1, ⟨hashes, flags, related⟩, h₁, h₂ => by
    match flags, hashes with
    | [], _ => rw [getMerkleRootByProof_exhausted interiorHash emptyHash (.inl rfl),
        getMerkleRootByProof_exhausted interiorHash emptyHash (.inl rfl)]
    | _ :: _, [] => rw [getMerkleRootByProof_exhausted interiorHash emptyHash (.inr rfl),
        getMerkleRootByProof_exhausted interiorHash emptyHash (.inr rfl)]
    | flag :: flags, hash :: hashes =>
      by_cases hp : flag = flagTxParent
      · subst hp
        simp only [List.length_cons] at h₁ h₂
        -- the left child runs on fewer flags, and the right one on what the left leaves
        have hl := getMerkleRootByProof_fuel fuel₁ fuel₂ ⟨hash :: hashes, flags, related⟩
          (by dsimp only; omega) (by dsimp only; omega)
        have hc := (getMerkleRootByProof_consumes interiorHash emptyHash fuel₂
          ⟨hash :: hashes, flags, related⟩).1
        rw [getMerkleRootByProof_parent, getMerkleRootByProof_parent]
        dsimp only
        rw [hl, getMerkleRootByProof_fuel fuel₁ fuel₂ _ (by dsimp only at hc; omega)
          (by dsimp only at hc; omega)]
      · -- every other flag returns without recursing
        simp only [getMerkleRootByProof, hp, if_false]

end Verify

/-! ## Completeness -/

section Lists

variable {T H : Type} [DecidableEq H]

/-- Filtering the images of distinct leaves by the images of a sublist gives the images of the
sublist, when the map is injective on the leaves. -/
theorem filter_map_mem_of_sublist {f : T → H} {s l : List T} (hs : s.Sublist l)
    (hnd : l.Nodup) (hinj : ∀ x ∈ l, ∀ y ∈ l, f x = f y → x = y) :
    (l.map f).filter (fun h => decide (h ∈ s.map f)) = s.map f := by
  induction hs with
  | slnil => rfl
  | @cons s l a hs ih =>
    obtain ⟨ha, hnd⟩ := List.nodup_cons.mp hnd
    have hinj' := fun x hx y hy => hinj x (.tail a hx) y (.tail a hy)
    -- `a` is not in the sublist, and no other leaf has its image
    have hfa : f a ∉ s.map f := by
      intro hm
      obtain ⟨b, hb, he⟩ := List.mem_map.mp hm
      exact ha (hinj b (.tail a (hs.subset hb)) a (.head _) he ▸ hs.subset hb)
    rw [List.map_cons, List.filter_cons, if_neg (by simpa using hfa), ih hnd hinj']
  | @cons_cons s l a hs ih =>
    obtain ⟨ha, hnd⟩ := List.nodup_cons.mp hnd
    have hinj' := fun x hx y hy => hinj x (.tail a hx) y (.tail a hy)
    -- no other leaf has the image of `a`, so adding it to the sublist keeps the same rest
    have hrest : (l.map f).filter (fun h => decide (h ∈ f a :: s.map f)) =
        (l.map f).filter (fun h => decide (h ∈ s.map f)) := by
      apply List.filter_congr
      intro h hh
      obtain ⟨b, hb, rfl⟩ := List.mem_map.mp hh
      have hne : f b ≠ f a := fun he => ha (hinj b (.tail a hb) a (.head _) he ▸ hb)
      simp [hne]
    simp only [List.map_cons]
    rw [List.filter_cons, if_pos (by simp), hrest, ih hnd hinj']

end Lists

section Complete

open MerkleTree

variable {T H : Type} [DecidableEq H] (leafHash : T → H) (interiorHash : H → H → H)
  (emptyHash : H)

/-- What a child puts into its parent's proof: its own proof where it has related leaves, its
hash with `FlagAssist` where it has none. -/
def MerkleTree.childProof (set : List H) (c : MerkleTree H) : List H × List UInt8 :=
  if 0 < (c.proof set).1.length then c.proof set else ([c.hash], [flagAssist])

/-- The related leaves below a node. -/
def MerkleTree.relatedLeaves (set : List H) (t : MerkleTree H) : List H :=
  t.leaves.filter fun h => decide (h ∈ set)

theorem relatedLeaves_node (set : List H) (h : H) (l r : MerkleTree H) :
    (node h l r).relatedLeaves set = l.relatedLeaves set ++ r.relatedLeaves set := by
  simp only [relatedLeaves, leaves_node, List.filter_append]

/-- An inner node's proof is its children's parts after `FlagTxParent`, when one has some. -/
theorem proof_node (set : List H) (h : H) (l r : MerkleTree H) :
    (node h l r).proof set =
      if 0 < (l.proof set).1.length || 0 < (r.proof set).1.length then
        ((l.childProof set).1 ++ (r.childProof set).1,
          flagTxParent :: ((l.childProof set).2 ++ (r.childProof set).2))
      else ([], []) := by
  simp only [MerkleTree.proof, childProof]
  by_cases hl : 0 < (l.proof set).1.length <;> by_cases hr : 0 < (r.proof set).1.length <;>
    simp [hl, hr]

/-- A proof has hashes exactly when there are related leaves below. -/
theorem proof_found_iff (set : List H) :
    ∀ t : MerkleTree H, 0 < (t.proof set).1.length ↔ t.relatedLeaves set ≠ []
  | leaf h => by
    by_cases hs : h ∈ set <;> simp [MerkleTree.proof, relatedLeaves, hs]
  | node h l r => by
    rw [proof_node, relatedLeaves_node, Ne, List.append_eq_nil_iff, Decidable.not_and_iff_not_or_not, ← ne_eq, ← ne_eq,
      ← proof_found_iff set l, ← proof_found_iff set r]
    by_cases hl : 0 < (l.proof set).1.length <;> by_cases hr : 0 < (r.proof set).1.length <;>
      simp [hl, hr, childProof]

/-- A child's part of its parent's proof is never empty. -/
theorem childProof_ne_nil (set : List H) (c : MerkleTree H) : (c.childProof set).1 ≠ [] := by
  unfold childProof
  split
  · rename_i hc
    intro he
    rw [he] at hc
    exact Nat.lt_irrefl 0 hc
  · exact List.cons_ne_nil _ _

theorem getMerkleRootByProof_parent_of_ne {fuel : Nat} {hashes related : List H}
    {flags : List UInt8} (hne : hashes ≠ []) :
    getMerkleRootByProof interiorHash emptyHash (fuel + 1) ⟨hashes, flagTxParent :: flags, related⟩ =
      let left := getMerkleRootByProof interiorHash emptyHash fuel ⟨hashes, flags, related⟩
      let right := getMerkleRootByProof interiorHash emptyHash fuel left.2
      (interiorHash left.1 right.1, right.2) := by
  cases hashes with
  | nil => exact absurd rfl hne
  | cons hash hashes => rfl

/-- A child's part recomputes its hash and consumes its related leaves, given that its own proof
does so where it has related leaves. -/
theorem getMerkleRootByProof_childProof {set : List H} {c : MerkleTree H} (fuel : Nat)
    (hs : List H) (fs : List UInt8) (ms : List H)
    (ih : 0 < (c.proof set).1.length → ∀ fuel hs fs ms, (c.proof set).2.length < fuel →
      getMerkleRootByProof interiorHash emptyHash fuel
        ⟨(c.proof set).1 ++ hs, (c.proof set).2 ++ fs, c.relatedLeaves set ++ ms⟩ =
          (c.hash, ⟨hs, fs, ms⟩))
    (hfuel : (c.childProof set).2.length < fuel) :
    getMerkleRootByProof interiorHash emptyHash fuel
      ⟨(c.childProof set).1 ++ hs, (c.childProof set).2 ++ fs, c.relatedLeaves set ++ ms⟩ =
        (c.hash, ⟨hs, fs, ms⟩) := by
  unfold childProof at hfuel ⊢
  by_cases hc : 0 < (c.proof set).1.length
  · simp only [if_pos hc] at hfuel ⊢
    exact ih hc fuel hs fs ms hfuel
  · -- no related leaf below: the child's hash is taken as an assist hash
    have hnil : c.relatedLeaves set = [] := Classical.not_not.mp (mt (proof_found_iff set c).mpr hc)
    simp only [if_neg hc, List.length_singleton] at hfuel ⊢
    obtain ⟨fuel, rfl⟩ : ∃ f, fuel = f + 1 := ⟨fuel - 1, by omega⟩
    rw [hnil, List.nil_append]
    exact getMerkleRootByProof_assist interiorHash emptyHash

/-- The proof of a subtree with related leaves recomputes the subtree's hash and consumes exactly
its related leaves, whatever follows in the queues. -/
theorem getMerkleRootByProof_proof (set : List H) :
    ∀ t : MerkleTree H, t.Hashed interiorHash → 0 < (t.proof set).1.length →
      ∀ fuel hs fs ms, (t.proof set).2.length < fuel →
        getMerkleRootByProof interiorHash emptyHash fuel
          ⟨(t.proof set).1 ++ hs, (t.proof set).2 ++ fs, t.relatedLeaves set ++ ms⟩ =
            (t.hash, ⟨hs, fs, ms⟩)
  | leaf h, _, hfound, fuel, hs, fs, ms, hfuel => by
    have hh : h ∈ set := by
      by_cases hn : h ∈ set
      · exact hn
      · simp [MerkleTree.proof, hn] at hfound
    obtain ⟨fuel, rfl⟩ : ∃ f, fuel = f + 1 :=
      ⟨fuel - 1, by simp [MerkleTree.proof, hh] at hfuel; omega⟩
    simp only [MerkleTree.proof, relatedLeaves, leaves_leaf, if_pos hh, List.filter_cons,
      decide_eq_true hh, List.filter_nil, List.cons_append, List.nil_append, if_true]
    rw [getMerkleRootByProof_leaf, if_pos rfl, hash_leaf]
  | node h l r, ⟨hh, hl, hr⟩, hfound, fuel, hs, fs, ms, hfuel => by
    have hfound' := hfound
    rw [proof_node] at hfound' hfuel ⊢
    have hany : (0 < (l.proof set).1.length || 0 < (r.proof set).1.length) = true := by
      by_cases hb : (0 < (l.proof set).1.length || 0 < (r.proof set).1.length) = true
      · exact hb
      · simp [hb] at hfound'
    simp only [if_pos hany, List.length_cons, List.length_append] at hfuel ⊢
    obtain ⟨fuel, rfl⟩ : ∃ f, fuel = f + 1 := ⟨fuel - 1, by omega⟩
    -- `FlagTxParent`, then the left part on everything after it, then the right part
    have hleft := getMerkleRootByProof_childProof interiorHash emptyHash fuel
      ((r.childProof set).1 ++ hs) ((r.childProof set).2 ++ fs) (r.relatedLeaves set ++ ms)
      (getMerkleRootByProof_proof set l hl) (by omega)
    have hright := getMerkleRootByProof_childProof interiorHash emptyHash fuel hs fs ms
      (getMerkleRootByProof_proof set r hr) (by omega)
    have hne : (l.childProof set).1 ++ ((r.childProof set).1 ++ hs) ≠ [] := by
      simp [childProof_ne_nil]
    rw [relatedLeaves_node, List.cons_append, List.append_assoc, List.append_assoc,
      List.append_assoc, getMerkleRootByProof_parent_of_ne interiorHash emptyHash hne]
    dsimp only
    rw [hleft]
    dsimp only
    rw [hright, hash_node, hh]

/-- `getMerkleTreeProof` is complete: the proof it emits for a sublist of distinct leaves with
distinct leaf hashes is accepted against the leaves' root. -/
theorem validateMerkleTreeProof_complete (txs related : List T) (hne : txs ≠ [])
    (hnd : txs.Nodup) (hinj : ∀ x ∈ txs, ∀ y ∈ txs, leafHash x = leafHash y → x = y)
    (hsub : related.Sublist txs) :
    validateMerkleTreeProof interiorHash emptyHash leafHash
      (getMerkleTreeProof leafHash interiorHash txs related).1
      (getMerkleTreeProof leafHash interiorHash txs related).2 related
      (merkleRoot leafHash interiorHash emptyHash txs) = true := by
  obtain ⟨t, hb, hroot, hleaves, hH⟩ := buildMerkleTree_spec leafHash interiorHash emptyHash txs hne
  rw [getMerkleTreeProof_of_build leafHash interiorHash hb, ← hroot]
  by_cases hr : related = []
  · -- nothing related: the root alone, as an assist hash
    subst hr
    simp [validateMerkleTreeProof_eq, getMerkleRootByProof_assist]
  · -- the related leaf hashes pick out exactly the related leaves of the tree
    have hrel : t.relatedLeaves (related.map leafHash) = related.map leafHash := by
      rw [relatedLeaves, hleaves]
      exact filter_map_mem_of_sublist hsub hnd hinj
    have hfound : 0 < (t.proof (related.map leafHash)).1.length := by
      rw [proof_found_iff, hrel, Ne, List.map_eq_nil_iff]
      exact hr
    have hrun := getMerkleRootByProof_proof interiorHash emptyHash (related.map leafHash) t hH
      hfound ((t.proof (related.map leafHash)).2.length + 1) [] [] [] (Nat.lt_succ_self _)
    rw [hrel, List.append_nil, List.append_nil, List.append_nil] at hrun
    rw [if_neg hr, validateMerkleTreeProof_eq]
    simp [hrun]

theorem validateMerkleTreeProof_complete_firstAndLast :
    ([1, 2, 3] : List Nat) ≠ [] ∧ ([1, 2, 3] : List Nat).Nodup ∧
      ([1, 3] : List Nat).Sublist [1, 2, 3] ∧
      validateMerkleTreeProof (fun a b : Nat => 2 * (a + b)) 0 (fun x : Nat => 2 * x + 1)
        (getMerkleTreeProof (fun x : Nat => 2 * x + 1) (fun a b => 2 * (a + b)) [1, 2, 3] [1, 3]).1
        (getMerkleTreeProof (fun x : Nat => 2 * x + 1) (fun a b => 2 * (a + b)) [1, 2, 3] [1, 3]).2
        [1, 3] (merkleRoot (fun x : Nat => 2 * x + 1) (fun a b => 2 * (a + b)) 0 [1, 2, 3]) = true :=
  ⟨by decide, by decide, by decide,
    validateMerkleTreeProof_complete (fun x : Nat => 2 * x + 1) (fun a b => 2 * (a + b)) 0
      [1, 2, 3] [1, 3] (by decide) (by decide) (fun x _ y _ h => by omega) (by decide)⟩

end Complete

end KuskCore.Merkle
