import Mathlib
import KuskCore.Casper.Checkpoint

/-!
# Fork choice

`treeNode.bestNode` of `protocol/casper/tree_node.go`, behind `Casper.BestChain`. The tree holds
the checkpoints above the last finalized one; `bestNode` walks it, handing each child the height
of the last justified checkpoint on the way down, and keeps a child's best whenever it beats the
best so far on the justified height, then the height, then the hash's string.

The specification reads the tree as its paths: a node's justified height is that of the deepest
justified checkpoint on its path from the root, and the node ranks by that triple in
lexicographic order (`rank`). `bestNode` returns a node of greatest rank (`bestNode_spec`).
When the tree's checkpoints have distinct hash strings the greatest rank is held by one node, so
reordering the children of any node leaves the result unchanged (`bestNode_lexMax`).

`hashString` stands for `Hash.String()`: hashes are numbers in this model, and only their strings
are compared.
-/

namespace KuskCore.Protocol

/-- `treeNode`: a checkpoint and its children. -/
inductive TreeNode where
  | node (checkpoint : Checkpoint) (children : List TreeNode)

/-- The justified height handed down past a checkpoint: its own when it is justified. -/
def justifiedThrough (c : Checkpoint) (justifiedHeight : Nat) : Nat :=
  if c.status = .justified then c.height else justifiedHeight

section BestNode

variable (hashString : Nat → String)

/-- One pass of `bestNode`'s loop: the child's best replaces the best so far when it is ahead on
the justified height, or level there and higher, or level on both with the greater hash string. -/
def pickBest (best child : Checkpoint × Nat) : Checkpoint × Nat :=
  if child.2 > best.2 ∨ (child.2 = best.2 ∧ child.1.height > best.1.height) ∨
      (child.2 = best.2 ∧ child.1.height = best.1.height ∧
        hashString child.1.hash > hashString best.1.hash)
  then child else best

mutual

/-- `bestNode`: the best checkpoint of the tree, with its justified height. -/
def TreeNode.bestNode : TreeNode → Nat → Checkpoint × Nat
  | .node c children, justifiedHeight =>
    bestOfChildren children (justifiedThrough c justifiedHeight) (c, justifiedThrough c justifiedHeight)

/-- The loop of `bestNode` over the children, from the best so far. -/
def bestOfChildren : List TreeNode → Nat → Checkpoint × Nat → Checkpoint × Nat
  | [], _, best => best
  | child :: children, justifiedHeight, best =>
    bestOfChildren children justifiedHeight (pickBest hashString best (child.bestNode justifiedHeight))

end

/-- `Casper.bestChain`: the root counts as justified at its own height. -/
def bestChain (tree : TreeNode) : Nat :=
  match tree with
  | .node c _ => (tree.bestNode hashString c.height).1.hash

end BestNode

/-! ## The specification: nodes ranked along their paths -/

mutual

/-- The paths from the root to each node of the tree, root first. -/
def TreeNode.paths : TreeNode → List (List Checkpoint)
  | .node c children => [c] :: (childrenPaths children).map (c :: ·)

/-- The paths of a list of trees. -/
def childrenPaths : List TreeNode → List (List Checkpoint)
  | [] => []
  | t :: ts => t.paths ++ childrenPaths ts

end

/-- The justified height of a path: the height of its deepest justified checkpoint, or `h0`. -/
def pathJustified (h0 : Nat) (path : List Checkpoint) : Nat :=
  (((path.filter fun c => c.status = .justified).getLast?).map Checkpoint.height).getD h0

/-- The nodes at the ends of some paths, each with its path's justified height. -/
def nodesOf (h0 : Nat) (paths : List (List Checkpoint)) : List (Checkpoint × Nat) :=
  paths.filterMap fun path => path.getLast?.map fun n => (n, pathJustified h0 path)

/-- The nodes of the tree with their justified heights. -/
def TreeNode.nodes (t : TreeNode) (h0 : Nat) : List (Checkpoint × Nat) := nodesOf h0 t.paths

/-- The checkpoints of the tree, one per node. -/
def TreeNode.checkpoints (t : TreeNode) : List Checkpoint := t.paths.filterMap List.getLast?

/-- The triple `bestNode` compares, in lexicographic order. -/
def rank (hashString : Nat → String) (e : Checkpoint × Nat) : Nat ×ₗ Nat ×ₗ String :=
  toLex (e.2, toLex (e.1.height, hashString e.1.hash))

/-- A tree with the children of every node reordered. -/
inductive Reordered : TreeNode → TreeNode → Prop
  | node (c : Checkpoint) {cs ds es : List TreeNode} (h : List.Forall₂ Reordered cs ds)
      (hp : ds.Perm es) : Reordered (.node c cs) (.node c es)

/-! ## Paths -/

theorem childrenPaths_eq_flatMap : ∀ ts : List TreeNode, childrenPaths ts = ts.flatMap TreeNode.paths
  | [] => rfl
  | t :: ts => by rw [childrenPaths, List.flatMap_cons, childrenPaths_eq_flatMap ts]

mutual

theorem ne_nil_of_mem_paths : ∀ (t : TreeNode) {path}, path ∈ t.paths → path ≠ []
  | .node c children, path, hpath => by
    rw [TreeNode.paths, List.mem_cons, List.mem_map] at hpath
    rcases hpath with rfl | ⟨p, -, rfl⟩
    · exact List.cons_ne_nil _ _
    · exact List.cons_ne_nil _ _

theorem ne_nil_of_mem_childrenPaths : ∀ (ts : List TreeNode) {path}, path ∈ childrenPaths ts → path ≠ []
  | [], _, hpath => nomatch hpath
  | t :: ts, path, hpath => by
    rw [childrenPaths, List.mem_append] at hpath
    rcases hpath with hpath | hpath
    · exact ne_nil_of_mem_paths t hpath
    · exact ne_nil_of_mem_childrenPaths ts hpath

end

/-- Below a checkpoint, a path's justified height starts from the height handed down. -/
theorem pathJustified_cons (h0 : Nat) (c : Checkpoint) (path : List Checkpoint) :
    pathJustified h0 (c :: path) = pathJustified (justifiedThrough c h0) path := by
  unfold pathJustified justifiedThrough
  by_cases hc : c.status = .justified
  · -- a justified checkpoint counts unless a deeper one does
    rw [List.filter_cons_of_pos (by simpa using hc), List.getLast?_cons, if_pos hc]
    cases (path.filter fun c => c.status = .justified).getLast? <;> rfl
  · rw [List.filter_cons_of_neg (by simpa using hc), if_neg hc]

theorem nodesOf_append (h0 : Nat) (ps qs : List (List Checkpoint)) :
    nodesOf h0 (ps ++ qs) = nodesOf h0 ps ++ nodesOf h0 qs :=
  List.filterMap_append

/-- The nodes of a tree: the root with the height it hands down, then the nodes below it. -/
theorem nodes_node (h0 : Nat) (c : Checkpoint) (children : List TreeNode) :
    (TreeNode.node c children).nodes h0 =
      (c, justifiedThrough c h0) :: nodesOf (justifiedThrough c h0) (childrenPaths children) := by
  have hroot : pathJustified h0 [c] = justifiedThrough c h0 := by
    rw [pathJustified_cons]
    rfl
  have hbelow : nodesOf h0 ((childrenPaths children).map (c :: ·)) =
      nodesOf (justifiedThrough c h0) (childrenPaths children) := by
    unfold nodesOf
    rw [List.filterMap_map]
    apply List.filterMap_congr
    intro path hpath
    obtain ⟨n, hn⟩ := List.getLast?_isSome.mpr (ne_nil_of_mem_childrenPaths children hpath)
      |> Option.isSome_iff_exists.mp
    simp only [Function.comp_apply, List.getLast?_cons, hn, Option.getD_some, Option.map_some,
      pathJustified_cons]
  unfold TreeNode.nodes
  rw [TreeNode.paths, nodesOf, List.filterMap_cons, List.getLast?_singleton, Option.map_some, hroot,
    ← nodesOf, hbelow]

theorem nodesOf_childrenPaths_cons (h : Nat) (t : TreeNode) (ts : List TreeNode) :
    nodesOf h (childrenPaths (t :: ts)) = t.nodes h ++ nodesOf h (childrenPaths ts) := by
  rw [childrenPaths, nodesOf_append]
  rfl

/-! ## `bestNode` keeps a node of greatest rank -/

section Spec

variable (hashString : Nat → String)

/-- The three clauses of the loop are the lexicographic order of the triples. -/
theorem pickBest_eq (best child : Checkpoint × Nat) :
    pickBest hashString best child =
      if rank hashString best < rank hashString child then child else best := by
  unfold pickBest rank
  congr 1
  simp only [Prod.Lex.toLex_lt_toLex]
  apply propext
  constructor
  · rintro (h | ⟨h₁, h₂⟩ | ⟨h₁, h₂, h₃⟩)
    · exact .inl h
    · exact .inr ⟨h₁.symm, .inl h₂⟩
    · exact .inr ⟨h₁.symm, .inr ⟨h₂.symm, h₃⟩⟩
  · rintro (h | ⟨h₁, h | ⟨h₂, h₃⟩⟩)
    · exact .inl h
    · exact .inr (.inl ⟨h₁.symm, h⟩)
    · exact .inr (.inr ⟨h₁.symm, h₂.symm, h₃⟩)

theorem pickBest_mem (best child : Checkpoint × Nat) :
    pickBest hashString best child = best ∨ pickBest hashString best child = child := by
  rw [pickBest_eq]
  split
  · exact .inr rfl
  · exact .inl rfl

theorem le_pickBest_left (best child : Checkpoint × Nat) :
    rank hashString best ≤ rank hashString (pickBest hashString best child) := by
  rw [pickBest_eq]
  split
  · exact le_of_lt ‹_›
  · exact le_rfl

theorem le_pickBest_right (best child : Checkpoint × Nat) :
    rank hashString child ≤ rank hashString (pickBest hashString best child) := by
  rw [pickBest_eq]
  split
  · exact le_rfl
  · exact not_lt.mp ‹_›

mutual

/-- `bestNode` returns one of the tree's nodes, of greatest rank. -/
theorem bestNode_spec : ∀ (t : TreeNode) (h0 : Nat),
    t.bestNode hashString h0 ∈ t.nodes h0 ∧
      ∀ e ∈ t.nodes h0, rank hashString e ≤ rank hashString (t.bestNode hashString h0)
  | .node c children, h0 => by
    rw [nodes_node, TreeNode.bestNode]
    exact bestOfChildren_spec children (justifiedThrough c h0) _

/-- The loop over the children ends on the best so far or on a node below, of greatest rank. -/
theorem bestOfChildren_spec : ∀ (ts : List TreeNode) (h : Nat) (best : Checkpoint × Nat),
    bestOfChildren hashString ts h best ∈ best :: nodesOf h (childrenPaths ts) ∧
      ∀ e ∈ best :: nodesOf h (childrenPaths ts),
        rank hashString e ≤ rank hashString (bestOfChildren hashString ts h best)
  | [], h, best => by
    refine ⟨List.mem_cons_self, fun e he => ?_⟩
    rw [List.mem_singleton.mp he]
    rfl
  | t :: ts, h, best => by
    -- the child's best enters the comparison, and the loop goes on from the winner
    obtain ⟨hmem, hmax⟩ := bestNode_spec t h
    obtain ⟨hmem', hmax'⟩ :=
      bestOfChildren_spec ts h (pickBest hashString best (t.bestNode hashString h))
    rw [bestOfChildren, nodesOf_childrenPaths_cons]
    have hwin := hmax' _ List.mem_cons_self
    refine ⟨?_, fun e he => ?_⟩
    · rcases List.mem_cons.mp hmem' with heq | hrest
      · rcases pickBest_mem hashString best (t.bestNode hashString h) with hb | hc
        · rw [heq, hb]
          exact List.mem_cons_self
        · rw [heq, hc]
          exact List.mem_cons_of_mem _ (List.mem_append_left _ hmem)
      · exact List.mem_cons_of_mem _ (List.mem_append_right _ hrest)
    · rcases List.mem_cons.mp he with rfl | he
      · exact (le_pickBest_left hashString _ _).trans hwin
      rcases List.mem_append.mp he with he | he
      · exact ((hmax e he).trans (le_pickBest_right hashString _ _)).trans hwin
      · exact hmax' e (List.mem_cons_of_mem _ he)

end

/-! ## Reordering the children -/

mutual

theorem paths_perm_of_reordered : ∀ (t : TreeNode) {t' : TreeNode}, Reordered t t' →
    t'.paths.Perm t.paths
  | .node c cs, _, hre => by
    cases hre with
    | @node _ _ ds es hf hp =>
      rw [TreeNode.paths, TreeNode.paths]
      have hds := childrenPaths_perm_of_forall₂ cs hf
      have hes : (childrenPaths es).Perm (childrenPaths ds) := by
        rw [childrenPaths_eq_flatMap, childrenPaths_eq_flatMap]
        exact hp.symm.flatMap_right _
      exact ((hes.trans hds).map _).cons _

theorem childrenPaths_perm_of_forall₂ : ∀ (cs : List TreeNode) {ds : List TreeNode},
    List.Forall₂ Reordered cs ds → (childrenPaths ds).Perm (childrenPaths cs)
  | [], _, hf => by
    cases hf
    exact List.Perm.refl _
  | t :: ts, _, hf => by
    cases hf with
    | cons h₁ h₂ =>
      rw [childrenPaths, childrenPaths]
      exact (paths_perm_of_reordered t h₁).append (childrenPaths_perm_of_forall₂ ts h₂)

end

theorem mem_checkpoints_of_mem_nodes {t : TreeNode} {h0 : Nat} {e : Checkpoint × Nat}
    (he : e ∈ t.nodes h0) : e.1 ∈ t.checkpoints := by
  obtain ⟨path, hpath, hlast⟩ := List.mem_filterMap.mp he
  obtain ⟨n, hn, rfl⟩ := Option.map_eq_some_iff.mp hlast
  exact List.mem_filterMap.mpr ⟨path, hpath, hn⟩

/-- With distinct hash strings, two nodes of one rank are one node. -/
theorem eq_of_rank_eq {t : TreeNode} {h0 : Nat}
    (hnd : (t.checkpoints.map fun c => hashString c.hash).Nodup) {e₁ e₂ : Checkpoint × Nat}
    (h₁ : e₁ ∈ t.nodes h0) (h₂ : e₂ ∈ t.nodes h0) (hr : rank hashString e₁ = rank hashString e₂) :
    e₁ = e₂ := by
  simp only [rank, EmbeddingLike.apply_eq_iff_eq, Prod.mk.injEq] at hr
  obtain ⟨hj, -, hs⟩ := hr
  have hc : e₁.1 = e₂.1 := List.inj_on_of_nodup_map hnd (mem_checkpoints_of_mem_nodes h₁)
    (mem_checkpoints_of_mem_nodes h₂) hs
  exact Prod.ext hc hj

/-- Reordering the children moves the best to a node of the same rank. -/
theorem rank_bestNode_of_reordered {t t' : TreeNode} (h0 : Nat) (hre : Reordered t t') :
    (t'.nodes h0).Perm (t.nodes h0) ∧
      rank hashString (t'.bestNode hashString h0) = rank hashString (t.bestNode hashString h0) := by
  have hperm : (t'.nodes h0).Perm (t.nodes h0) := (paths_perm_of_reordered t hre).filterMap _
  obtain ⟨hmem, hmax⟩ := bestNode_spec hashString t h0
  obtain ⟨hmem', hmax'⟩ := bestNode_spec hashString t' h0
  -- each best is a node of the other tree, so neither outranks the other
  have hle := hmax _ (hperm.subset hmem')
  have hge := hmax' _ (hperm.symm.subset hmem)
  exact ⟨hperm, le_antisymm hle hge⟩

/-- Fork choice selects a node of greatest rank; reordering the children of any node leaves the
rank of the result unchanged, and, when the tree's checkpoints have distinct hash strings, the
result itself. -/
theorem bestNode_lexMax (t : TreeNode) (h0 : Nat) :
    (t.bestNode hashString h0 ∈ t.nodes h0 ∧
      ∀ e ∈ t.nodes h0, rank hashString e ≤ rank hashString (t.bestNode hashString h0)) ∧
    (∀ t', Reordered t t' →
      rank hashString (t'.bestNode hashString h0) = rank hashString (t.bestNode hashString h0)) ∧
    ((t.checkpoints.map fun c => hashString c.hash).Nodup →
      ∀ t', Reordered t t' → t'.bestNode hashString h0 = t.bestNode hashString h0) := by
  refine ⟨bestNode_spec hashString t h0, fun t' hre => (rank_bestNode_of_reordered hashString h0 hre).2,
    fun hnd t' hre => ?_⟩
  obtain ⟨hperm, hrank⟩ := rank_bestNode_of_reordered hashString h0 hre
  have hmem' := hperm.subset (bestNode_spec hashString t' h0).1
  exact eq_of_rank_eq hashString hnd hmem' (bestNode_spec hashString t h0).1 hrank

/-- A checkpoint of the sample trees. -/
def sampleCheckpoint (height hash parentHash : Nat) (status : CheckpointStatus) : Checkpoint :=
  ⟨height, hash, parentHash, 0, status, [], []⟩

/-- A justified root with a growing branch two deep and a justified child. -/
def sampleTree : TreeNode :=
  .node (sampleCheckpoint 0 1 0 .justified)
    [.node (sampleCheckpoint 1 2 1 .growing) [.node (sampleCheckpoint 2 4 2 .growing) []],
     .node (sampleCheckpoint 1 3 1 .justified) []]

/-- The sample tree with the root's children swapped. -/
def sampleTreeSwapped : TreeNode :=
  .node (sampleCheckpoint 0 1 0 .justified)
    [.node (sampleCheckpoint 1 3 1 .justified) [],
     .node (sampleCheckpoint 1 2 1 .growing) [.node (sampleCheckpoint 2 4 2 .growing) []]]

theorem sampleTree_reordered : Reordered sampleTree sampleTreeSwapped :=
  .node _ (.cons (.node _ (.cons (.node _ .nil (List.Perm.refl _)) .nil) (List.Perm.refl _))
    (.cons (.node _ .nil (List.Perm.refl _)) .nil)) (List.Perm.swap _ _ [])

theorem bestNode_lexMax_sampleTree :
    (sampleTree.checkpoints.map fun c => Nat.repr c.hash).Nodup ∧
      sampleTreeSwapped.bestNode Nat.repr 0 = sampleTree.bestNode Nat.repr 0 :=
  have hnd : (sampleTree.checkpoints.map fun c => Nat.repr c.hash).Nodup := by decide
  ⟨hnd, (bestNode_lexMax Nat.repr sampleTree 0).2.2 hnd sampleTreeSwapped sampleTree_reordered⟩

-- the justified child outranks the deeper growing branch
example : bestChain Nat.repr sampleTree = 3 := by decide

end Spec

end KuskCore.Protocol
