import KuskCore.Merkle.Verify

/-!
# Soundness of a Merkle proof in the symbolic hash model

In the symbolic model `leafMerkleHash` and `interiorMerkleHash` are injective with disjoint images
(`FreeHashes`), so a hash names the tree it was computed from. A run of `getMerkleRootByProof`
whose result is the hash of a tree then consumes related hashes that are leaves of that tree, in
order (`getMerkleRootByProof_consumed_sublist`): a `FlagTxLeaf` that matches can only stand at a
leaf, and a `FlagTxParent` at an inner node, whose children are decoded by injectivity.

`validateMerkleTreeProof` is therefore sound. For the empty list the expected root is
`bc.EmptyStringHash`, the hash of the empty string, which a run also returns on exhausted input; in
the symbolic model it is a term of its own (`SymbolicHash.emptyString`), neither a leaf nor an
interior hash, so a run that returns it has consumed no related hash
(`getMerkleRootByProof_empty_related`).
-/

namespace KuskCore.Merkle

open MerkleTree

/-- The symbolic hash model: leaf hashes and interior hashes are injective, and leaf hashes,
interior hashes and the hash of the empty string are three disjoint kinds. -/
structure FreeHashes {T H : Type} (leafHash : T → H) (interiorHash : H → H → H) (emptyHash : H) :
    Prop where
  leaf_injective : Function.Injective leafHash
  interior_injective : ∀ a b c d, interiorHash a b = interiorHash c d → a = c ∧ b = d
  leaf_ne_interior : ∀ x a b, leafHash x ≠ interiorHash a b
  leaf_ne_empty : ∀ x, leafHash x ≠ emptyHash
  interior_ne_empty : ∀ a b, interiorHash a b ≠ emptyHash

section Sound

variable {T H : Type} {leafHash : T → H}

/-- Every hash in a list is a leaf hash. -/
def LeafHashes (leafHash : T → H) (hs : List H) : Prop := ∀ h ∈ hs, ∃ x, leafHash x = h

theorem leafHashes_append_right {hs ks : List H} (h : LeafHashes leafHash (hs ++ ks)) :
    LeafHashes leafHash ks :=
  fun k hk => h k (List.mem_append_right hs hk)

theorem leafHashes_map (xs : List T) : LeafHashes leafHash (xs.map leafHash) := by
  intro h hh
  obtain ⟨x, -, rfl⟩ := List.mem_map.mp hh
  exact ⟨x, rfl⟩

variable [DecidableEq H] {interiorHash : H → H → H} {emptyHash : H}

/-- A run leaves a suffix of the related queue, so leaf hashes stay leaf hashes. -/
theorem leafHashes_after {fuel : Nat} {q : Queues H} (h : LeafHashes leafHash q.related) :
    LeafHashes leafHash (getMerkleRootByProof interiorHash emptyHash fuel q).2.related := by
  obtain ⟨-, c, hc⟩ := getMerkleRootByProof_consumes interiorHash emptyHash fuel q
  rw [hc] at h
  exact leafHashes_append_right h

variable (hf : FreeHashes leafHash interiorHash emptyHash)
include hf

/-- A run whose result is the hash of a tree, with leaf hashes at its leaves and in the related
queue, consumes a sublist of the tree's leaves. -/
theorem getMerkleRootByProof_consumed_sublist : ∀ (fuel : Nat) (q : Queues H) (t : MerkleTree H),
    t.Hashed interiorHash → LeafHashes leafHash t.leaves → LeafHashes leafHash q.related →
    (getMerkleRootByProof interiorHash emptyHash fuel q).1 = t.hash →
    ∃ c, q.related = c ++ (getMerkleRootByProof interiorHash emptyHash fuel q).2.related ∧
      c.Sublist t.leaves
  | 0, _, _, _, _, _, _ => ⟨[], rfl, List.nil_sublist _⟩
  | fuel + 1, q, t, hH, hleaves, hrel, hres => by
    rcases getMerkleRootByProof_cases interiorHash emptyHash fuel q rfl with
      h | ⟨_, _, _, -, -, h⟩ | ⟨hash, _, _, _, -, -, hm, h⟩ | ⟨flags, -, -, h⟩ | ⟨_, _, -, -, h⟩
    · rw [h]
      exact ⟨[], rfl, List.nil_sublist _⟩
    · rw [h]
      exact ⟨[], rfl, List.nil_sublist _⟩
    · -- a matching leaf flag: its hash is a related leaf hash, so the tree is that leaf
      rw [h] at hres ⊢
      dsimp only at hres
      obtain ⟨x, hx⟩ := hrel hash (by rw [hm]; exact List.mem_cons_self)
      refine ⟨[hash], hm, ?_⟩
      cases t with
      | leaf h' =>
        rw [hash_leaf] at hres
        rw [hres]
        exact List.Sublist.refl _
      | node h' l r =>
        rw [hash_node, hH.1, ← hx] at hres
        exact absurd hres (hf.leaf_ne_interior x _ _)
    · -- a parent flag: the tree is a node, and each child's run consumes from that child
      rw [h] at hres ⊢
      dsimp only at hres
      cases t with
      | leaf h' =>
        obtain ⟨x, hx⟩ := hleaves h' (List.mem_singleton_self h')
        rw [hash_leaf, ← hx] at hres
        exact absurd hres.symm (hf.leaf_ne_interior x _ _)
      | node h' l r =>
        obtain ⟨hh, hl, hr⟩ := hH
        rw [hash_node, hh] at hres
        obtain ⟨hresl, hresr⟩ := hf.interior_injective _ _ _ _ hres
        have hleavesl : LeafHashes leafHash l.leaves :=
          fun k hk => hleaves k (List.mem_append_left _ hk)
        have hleavesr : LeafHashes leafHash r.leaves :=
          fun k hk => hleaves k (List.mem_append_right _ hk)
        obtain ⟨cl, hcl, hsl⟩ := getMerkleRootByProof_consumed_sublist fuel
          ⟨q.hashes, flags, q.related⟩ l hl hleavesl hrel hresl
        obtain ⟨cr, hcr, hsr⟩ := getMerkleRootByProof_consumed_sublist fuel
          (getMerkleRootByProof interiorHash emptyHash fuel ⟨q.hashes, flags, q.related⟩).2 r hr
          hleavesr (leafHashes_after hrel) hresr
        refine ⟨cl ++ cr, ?_, hsl.append hsr⟩
        rw [List.append_assoc, ← hcr]
        exact hcl
    · rw [h]
      exact ⟨[], rfl, List.nil_sublist _⟩

/-- A run that returns the empty hash consumes no related hash. -/
theorem getMerkleRootByProof_empty_related :
    ∀ (fuel : Nat) (q : Queues H), LeafHashes leafHash q.related →
      (getMerkleRootByProof interiorHash emptyHash fuel q).1 = emptyHash →
      (getMerkleRootByProof interiorHash emptyHash fuel q).2.related = q.related
  | 0, _, _, _ => rfl
  | fuel + 1, q, hrel, hres => by
    rcases getMerkleRootByProof_cases interiorHash emptyHash fuel q rfl with
      h | ⟨_, _, _, -, -, h⟩ | ⟨hash, _, _, _, -, -, hm, h⟩ | ⟨_, -, -, h⟩ | ⟨_, _, -, -, h⟩
    · rw [h]
    · rw [h]
    · -- the result is the related leaf hash it matched
      rw [h] at hres
      dsimp only at hres
      obtain ⟨x, hx⟩ := hrel hash (by rw [hm]; exact List.mem_cons_self)
      exact absurd (hx.trans hres) (hf.leaf_ne_empty x)
    · rw [h] at hres
      exact absurd hres (hf.interior_ne_empty _ _)
    · rw [h]

/-- In the symbolic hash model, a proof accepted against the root of a list of leaves proves a
sublist of those leaves. -/
theorem validateMerkleTreeProof_sound (txs : List T) (hashes : List H) (flags : List UInt8)
    (related : List T)
    (hv : validateMerkleTreeProof interiorHash emptyHash leafHash hashes flags related
      (merkleRoot leafHash interiorHash emptyHash txs) = true) :
    related.Sublist txs := by
  rw [validateMerkleTreeProof_eq] at hv
  simp only [Bool.and_eq_true, beq_iff_eq] at hv
  obtain ⟨hroot, hlen⟩ := hv
  have hrest := List.eq_nil_of_length_eq_zero hlen
  have himg : LeafHashes leafHash (related.map leafHash) := leafHashes_map related
  by_cases htx : txs = []
  · -- the empty list: nothing may have been consumed
    subst htx
    rw [merkleRoot] at hroot
    have hnone := getMerkleRootByProof_empty_related hf _ _ himg hroot
    rw [hrest, eq_comm, List.map_eq_nil_iff] at hnone
    exact hnone ▸ List.Sublist.slnil
  · -- the true tree decodes what was consumed: all of the related leaf hashes
    obtain ⟨t, -, htroot, hleaves, hH⟩ :=
      buildMerkleTree_spec leafHash interiorHash emptyHash txs htx
    rw [← htroot] at hroot
    have htl : LeafHashes leafHash t.leaves := by
      rw [hleaves]
      exact leafHashes_map txs
    obtain ⟨c, hc, hsub⟩ := getMerkleRootByProof_consumed_sublist hf _ _ t hH htl himg hroot
    rw [hrest, List.append_nil] at hc
    rw [← hc, hleaves] at hsub
    obtain ⟨l', hl', heq⟩ := List.sublist_map_iff.mp hsub
    rw [(List.map_inj_right fun x y h => hf.leaf_injective h).mp heq]
    exact hl'

end Sound

/-- Hashes as free terms over the leaves: the symbolic model of the two hash functions, with the
hash of the empty string (`bc.EmptyStringHash`) a term of its own. -/
inductive SymbolicHash (T : Type) where
  | leaf (t : T)
  | interior (left right : SymbolicHash T)
  | emptyString
  deriving DecidableEq, Repr

theorem SymbolicHash.freeHashes {T : Type} :
    FreeHashes (SymbolicHash.leaf (T := T)) SymbolicHash.interior SymbolicHash.emptyString where
  leaf_injective _ _ h := SymbolicHash.leaf.inj h
  interior_injective _ _ _ _ h := SymbolicHash.interior.inj h
  leaf_ne_interior _ _ _ h := nomatch h
  leaf_ne_empty _ h := nomatch h
  interior_ne_empty _ _ h := nomatch h

theorem validateMerkleTreeProof_sound_lastOfThree :
    validateMerkleTreeProof SymbolicHash.interior .emptyString SymbolicHash.leaf
        [.interior (.leaf 1) (.leaf 2), .leaf 3] [flagTxParent, flagAssist, flagTxLeaf] [3]
        (merkleRoot SymbolicHash.leaf SymbolicHash.interior .emptyString [1, 2, 3]) = true ∧
      ([3] : List Nat).Sublist [1, 2, 3] :=
  have hv : validateMerkleTreeProof SymbolicHash.interior .emptyString SymbolicHash.leaf
      [.interior (.leaf 1) (.leaf 2), .leaf 3] [flagTxParent, flagAssist, flagTxLeaf] [3]
      (merkleRoot SymbolicHash.leaf SymbolicHash.interior .emptyString [1, 2, 3]) = true := by
    decide +kernel
  ⟨hv, validateMerkleTreeProof_sound SymbolicHash.freeHashes [1, 2, 3] _ _ [3] hv⟩

end KuskCore.Merkle
