import Mathlib
/-!
# The transaction Merkle tree

`protocol/bc/types/merkle.go`. A list of leaves is split at `prevPowerOfTwo` of its length, the
largest power of two below it, and the halves are hashed recursively: `merkleRoot` computes the
root, `buildMerkleTree` keeps every node with its hash, and `getMerkleTreeProof` walks that tree
in pre-order to emit the proof of a list of related leaves as hashes and flags.

The hash functions are left abstract (`leafHash`, `interiorHash`, and `emptyHash` for
`bc.EmptyStringHash`). `buildMerkleTree_spec` says once what a built tree is: its root is
`merkleRoot`, its leaves are the leaf hashes in order, and every inner node carries the interior
hash of its children (`MerkleTree.Hashed`).
-/

namespace KuskCore.Merkle

/-! ## Splitting -/

/-- `prevPowerOfTwo`: half of a power of two, and otherwise the largest power of two below `n`.
Go takes the exponent as `uint(math.Log2(float64(n)))`, which is `⌊log₂ n⌋` for the counts below
`2 ^ 48` a block can hold; here it is `Nat.log2`. -/
def prevPowerOfTwo (n : Nat) : Nat :=
  if n &&& (n - 1) = 0 then n / 2 else 2 ^ n.log2

theorem prevPowerOfTwo_pos {n : Nat} (h : 2 ≤ n) : 0 < prevPowerOfTwo n := by
  unfold prevPowerOfTwo
  split
  · omega
  · exact Nat.two_pow_pos _

theorem prevPowerOfTwo_lt {n : Nat} (h : 2 ≤ n) : prevPowerOfTwo n < n := by
  unfold prevPowerOfTwo
  split
  · omega
  · rename_i hn
    have hle : 2 ^ n.log2 ≤ n := Nat.log2_self_le (by omega)
    -- a power of two `n` would make `n &&& (n - 1)` the remainder `n % n`
    have hne : 2 ^ n.log2 ≠ n := by
      intro he
      apply hn
      rw [← he, Nat.and_two_pow_sub_one_eq_mod, Nat.mod_self]
    omega

/-- Both halves of a split list of two or more leaves are shorter than it. -/
theorem length_take_prevPowerOfTwo_lt {α : Type} {xs : List α} (h : 2 ≤ xs.length) :
    (xs.take (prevPowerOfTwo xs.length)).length < xs.length := by
  have := prevPowerOfTwo_lt h
  simp only [List.length_take]
  omega

theorem length_drop_prevPowerOfTwo_lt {α : Type} {xs : List α} (h : 2 ≤ xs.length) :
    (xs.drop (prevPowerOfTwo xs.length)).length < xs.length := by
  have := prevPowerOfTwo_pos h
  simp only [List.length_drop]
  omega

theorem take_prevPowerOfTwo_ne_nil {α : Type} {xs : List α} (h : 2 ≤ xs.length) :
    xs.take (prevPowerOfTwo xs.length) ≠ [] := by
  have := prevPowerOfTwo_pos h
  intro he
  have hl := congrArg List.length he
  simp only [List.length_take, List.length_nil] at hl
  omega

theorem drop_prevPowerOfTwo_ne_nil {α : Type} {xs : List α} (h : 2 ≤ xs.length) :
    xs.drop (prevPowerOfTwo xs.length) ≠ [] := by
  have := prevPowerOfTwo_lt h
  intro he
  have hl := congrArg List.length he
  simp only [List.length_drop, List.length_nil] at hl
  omega

/-! ## The tree -/

/-- `merkleTreeNode`: a node with no children is a leaf. -/
inductive MerkleTree (H : Type) where
  | leaf (hash : H)
  | node (hash : H) (left right : MerkleTree H)
  deriving DecidableEq, Repr

namespace MerkleTree

variable {H : Type}

/-- The hash a node carries. -/
def hash : MerkleTree H → H
  | leaf h => h
  | node h _ _ => h

/-- The hashes at the leaves, left to right. -/
def leaves : MerkleTree H → List H
  | leaf h => [h]
  | node _ l r => l.leaves ++ r.leaves

/-- Every inner node carries the interior hash of its children's hashes. -/
def Hashed (interiorHash : H → H → H) : MerkleTree H → Prop
  | leaf _ => True
  | node h l r => h = interiorHash l.hash r.hash ∧ Hashed interiorHash l ∧ Hashed interiorHash r

@[simp] theorem hash_leaf (h : H) : (leaf h).hash = h := rfl

@[simp] theorem hash_node (h : H) (l r : MerkleTree H) : (node h l r).hash = h := rfl

@[simp] theorem leaves_leaf (h : H) : (leaf h).leaves = [h] := rfl

@[simp] theorem leaves_node (h : H) (l r : MerkleTree H) :
    (node h l r).leaves = l.leaves ++ r.leaves := rfl

end MerkleTree

open MerkleTree

section Build

variable {T H : Type} (leafHash : T → H) (interiorHash : H → H → H) (emptyHash : H)

/-- `merkleRoot`. -/
def merkleRoot : List T → H
  | [] => emptyHash
  | [x] => leafHash x
  | x :: y :: rest =>
    interiorHash
      (merkleRoot ((x :: y :: rest).take (prevPowerOfTwo (x :: y :: rest).length)))
      (merkleRoot ((x :: y :: rest).drop (prevPowerOfTwo (x :: y :: rest).length)))
termination_by xs => xs.length
decreasing_by
  · exact length_take_prevPowerOfTwo_lt (by simp)
  · exact length_drop_prevPowerOfTwo_lt (by simp)

/-- `buildMerkleTree`, with `none` for Go's `nil`. -/
def buildMerkleTree : List T → Option (MerkleTree H)
  | [] => none
  | [x] => some (.leaf (leafHash x))
  | x :: y :: rest =>
    match buildMerkleTree ((x :: y :: rest).take (prevPowerOfTwo (x :: y :: rest).length)),
      buildMerkleTree ((x :: y :: rest).drop (prevPowerOfTwo (x :: y :: rest).length)) with
    | some l, some r => some (.node (interiorHash l.hash r.hash) l r)
    | _, _ => none
termination_by xs => xs.length
decreasing_by
  · exact length_take_prevPowerOfTwo_lt (by simp)
  · exact length_drop_prevPowerOfTwo_lt (by simp)

/-- A non-empty list builds a tree whose hash is `merkleRoot`, whose leaves are the leaf hashes in
order, and whose inner nodes carry the interior hashes of their children. -/
theorem buildMerkleTree_spec : ∀ (xs : List T), xs ≠ [] → ∃ t,
    buildMerkleTree leafHash interiorHash xs = some t ∧
      t.hash = merkleRoot leafHash interiorHash emptyHash xs ∧
      t.leaves = xs.map leafHash ∧ t.Hashed interiorHash
  | [], h => absurd rfl h
  | [x], _ => ⟨.leaf (leafHash x), by rw [buildMerkleTree], by rw [merkleRoot]; rfl, rfl, trivial⟩
  | x :: y :: rest, _ => by
    have h2 : 2 ≤ (x :: y :: rest).length := by simp
    -- the two halves, by the induction on the length
    obtain ⟨l, hl, hlh, hll, hlH⟩ := buildMerkleTree_spec
      ((x :: y :: rest).take (prevPowerOfTwo (x :: y :: rest).length))
      (take_prevPowerOfTwo_ne_nil h2)
    obtain ⟨r, hr, hrh, hrl, hrH⟩ := buildMerkleTree_spec
      ((x :: y :: rest).drop (prevPowerOfTwo (x :: y :: rest).length))
      (drop_prevPowerOfTwo_ne_nil h2)
    refine ⟨.node (interiorHash l.hash r.hash) l r, ?_, ?_, ?_, ⟨rfl, hlH, hrH⟩⟩
    · rw [buildMerkleTree, hl, hr]
    · rw [merkleRoot, hash_node, hlh, hrh]
    · rw [leaves_node, hll, hrl, ← List.map_append, List.take_append_drop]
termination_by xs => xs.length
decreasing_by
  · exact length_take_prevPowerOfTwo_lt h2
  · exact length_drop_prevPowerOfTwo_lt h2

end Build

/-! ## The proof of related leaves -/

/-- `FlagAssist`, `FlagTxParent` and `FlagTxLeaf`. -/
def flagAssist : UInt8 := 0
def flagTxParent : UInt8 := 1
def flagTxLeaf : UInt8 := 2

section Proof

variable {T H : Type} [DecidableEq H]

/-- `merkleTreeNode.getMerkleTreeProof`: a related leaf is its own hash with `FlagTxLeaf`; an
inner node with a related leaf below is `FlagTxParent` followed by each child's proof, or by the
child's hash with `FlagAssist` where the child has none. `set` holds the related leaf hashes. -/
def MerkleTree.proof (set : List H) : MerkleTree H → List H × List UInt8
  | leaf h => if h ∈ set then ([h], [flagTxLeaf]) else ([], [])
  | node _ l r =>
    let (leftHashes, leftFlags) := l.proof set
    let (rightHashes, rightFlags) := r.proof set
    let leftFind := 0 < leftHashes.length
    let rightFind := 0 < rightHashes.length
    if leftFind || rightFind then
      ((if leftFind then leftHashes else [l.hash]) ++ (if rightFind then rightHashes else [r.hash]),
        flagTxParent :: ((if leftFind then leftFlags else [flagAssist]) ++
          (if rightFind then rightFlags else [flagAssist])))
    else ([], [])

variable (leafHash : T → H) (interiorHash : H → H → H)

/-- `getMerkleTreeProof`: no tree, no proof; no related leaf, the root as an assist hash. -/
def getMerkleTreeProof (rawDatas relatedRawDatas : List T) : List H × List UInt8 :=
  match buildMerkleTree leafHash interiorHash rawDatas with
  | none => ([], [])
  | some merkleTree =>
    let merkleHashSet := relatedRawDatas.map leafHash
    if merkleHashSet.length = 0 then ([merkleTree.hash], [flagAssist])
    else merkleTree.proof merkleHashSet

/-- The proof of a list that builds a tree: the root as an assist hash when nothing is related,
and otherwise the tree's proof of the related leaf hashes. -/
theorem getMerkleTreeProof_of_build {rawDatas relatedRawDatas : List T} {t : MerkleTree H}
    (hb : buildMerkleTree leafHash interiorHash rawDatas = some t) :
    getMerkleTreeProof leafHash interiorHash rawDatas relatedRawDatas =
      if relatedRawDatas = [] then ([t.hash], [flagAssist])
      else t.proof (relatedRawDatas.map leafHash) := by
  unfold getMerkleTreeProof
  rw [hb]
  simp only [List.length_map, List.length_eq_zero_iff]

end Proof

end KuskCore.Merkle
