import KuskCore.ParentChain

/-!
# The reorganisation path

`Chain.calcReorganizeChain` of `protocol/block.go`: the headers to attach and to detach when the
best chain moves from `beginDetach` to `beginAttach`. Two cursors walk back through
`store.GetBlockHeader`, the higher one a step at a time (both when level), the attach cursor's
headers going to the front of its list and the detach cursor's to the back, until the cursors'
hashes agree.

In a block tree (`BlockTree`: headers filed under their hashes, each one above its parent) the
parent links are graded by height, so `ParentChain` applies. While the cursors differ, their
lowest common ancestor stays the same and each move shortens the walk left from a cursor to it
(`calcReorganizeChainLoop_spec`); the cursors meet there, and the lists are the two walks from the
ancestor up, the attach side ascending and the detach side descending (`calcReorganizeChain_lca`).

The loop takes fuel, and `none` stands for fuel running out; a walk of length `n` finishes with
any fuel above `n`.
-/

namespace KuskCore.Protocol

open ParentChain

/-- The fields of `types.BlockHeader` the reorganisation reads; `hash` is `Hash()`. -/
structure BlockHeader where
  hash : Nat
  height : Nat
  previousBlockHash : Nat
  deriving DecidableEq, Repr

/-- The error of `database.GetBlockHeader`: "There are no blockHeader with given hash %s". -/
inductive StoreError where
  | noBlockHeader (hash : Nat)
  deriving DecidableEq, Repr

section Store

variable (store : Nat → Option BlockHeader)

/-- `Store.GetBlockHeader`. -/
def getBlockHeader (hash : Nat) : Except StoreError BlockHeader :=
  match store hash with
  | some header => .ok header
  | none => .error (.noBlockHeader hash)

/-- One cursor's move in the loop: to the parent when it rolls back. -/
def rollBack (rollback : Bool) (header : BlockHeader) : Except StoreError BlockHeader :=
  if rollback then getBlockHeader store header.previousBlockHash else .ok header

/-- The loop of `calcReorganizeChain`, with fuel. -/
def calcReorganizeChainLoop : Nat → BlockHeader → BlockHeader → List BlockHeader →
    List BlockHeader → Option (Except StoreError (List BlockHeader × List BlockHeader))
  | 0, _, _, _, _ => none
  | fuel + 1, attachBlockHeader, detachBlockHeader, attachBlockHeaders, detachBlockHeaders =>
    if detachBlockHeader.hash = attachBlockHeader.hash then
      some (.ok (attachBlockHeaders, detachBlockHeaders))
    else
      let attachRollback := decide (attachBlockHeader.height ≥ detachBlockHeader.height)
      let detachRollBack := decide (attachBlockHeader.height ≤ detachBlockHeader.height)
      let attachBlockHeaders :=
        if attachRollback then attachBlockHeader :: attachBlockHeaders else attachBlockHeaders
      let detachBlockHeaders :=
        if detachRollBack then detachBlockHeaders ++ [detachBlockHeader] else detachBlockHeaders
      match rollBack store attachRollback attachBlockHeader with
      | .error err => some (.error err)
      | .ok attachBlockHeader =>
        match rollBack store detachRollBack detachBlockHeader with
        | .error err => some (.error err)
        | .ok detachBlockHeader =>
          calcReorganizeChainLoop fuel attachBlockHeader detachBlockHeader attachBlockHeaders
            detachBlockHeaders

/-- `Chain.calcReorganizeChain`. -/
def calcReorganizeChain (fuel : Nat) (beginAttach beginDetach : BlockHeader) :
    Option (Except StoreError (List BlockHeader × List BlockHeader)) :=
  calcReorganizeChainLoop store fuel beginAttach beginDetach [] []

/-- A header's parent: the header the store files under its previous hash. -/
def parentHeader (header : BlockHeader) : Option BlockHeader := store header.previousBlockHash

/-- The header is in the store, under its hash. -/
def Stored (header : BlockHeader) : Prop := store header.hash = some header

/-- The store of a block tree: each header is filed under its hash and sits one above the header
filed under its previous hash (`ValidateBlockHeader` checks the height before a block is saved). -/
structure BlockTree : Prop where
  keyed : ∀ {hash header}, store hash = some header → header.hash = hash
  height_parent : ∀ {hash header parent}, store hash = some header →
    store header.previousBlockHash = some parent → header.height = parent.height + 1

variable {store}

theorem BlockTree.graded (ht : BlockTree store) :
    Graded (parentHeader store) (Stored store) BlockHeader.height where
  closed := fun _ hp => by
    unfold Stored
    rw [ht.keyed hp]
    exact hp
  height_parent := fun ha hp => ht.height_parent ha hp

/-- Stored headers with one hash are one header. -/
theorem stored_eq_of_hash_eq {x y : BlockHeader} (hx : Stored store x) (hy : Stored store y)
    (h : x.hash = y.hash) : x = y := by
  unfold Stored at hx hy
  rw [h, hy, Option.some.injEq] at hx
  exact hx.symm

/-! ## One pass of the loop -/

theorem calcReorganizeChainLoop_of_hash_eq {fuel : Nat} {x y : BlockHeader} {accA accD : List BlockHeader}
    (h : y.hash = x.hash) :
    calcReorganizeChainLoop store (fuel + 1) x y accA accD = some (.ok (accA, accD)) := by
  rw [calcReorganizeChainLoop, if_pos h]

theorem calcReorganizeChainLoop_of_rollBack {fuel : Nat} {x y x' y' : BlockHeader}
    {accA accD : List BlockHeader} (h : y.hash ≠ x.hash)
    (hx : rollBack store (decide (x.height ≥ y.height)) x = .ok x')
    (hy : rollBack store (decide (x.height ≤ y.height)) y = .ok y') :
    calcReorganizeChainLoop store (fuel + 1) x y accA accD =
      calcReorganizeChainLoop store fuel x' y'
        (if decide (x.height ≥ y.height) then x :: accA else accA)
        (if decide (x.height ≤ y.height) then accD ++ [y] else accD) := by
  rw [calcReorganizeChainLoop, if_neg h]
  simp only [hx, hy]

/-- A cursor on a walk down to `lca` moves along it: to the parent when it rolls back, which the
walk then loses at its front. -/
theorem rollBack_of_descent {x lca : BlockHeader} {px : List BlockHeader} (rollback : Bool)
    (hd : Descent (parentHeader store) x px lca) (hr : rollback = true → px ≠ []) :
    ∃ x' px', rollBack store rollback x = .ok x' ∧ Descent (parentHeader store) x' px' lca ∧
      IsAncestor (parentHeader store) x' x ∧ px = (if rollback then [x] else []) ++ px' := by
  cases rollback with
  | false => exact ⟨x, px, rfl, hd, .refl x, rfl⟩
  | true =>
    cases hd with
    | nil => exact absurd rfl (hr rfl)
    | @cons _ p _ l hp hd' =>
      have hget : rollBack store true x = .ok p := by
        rw [rollBack, if_pos rfl, getBlockHeader, show store x.previousBlockHash = some p from hp]
      exact ⟨p, l, hget, hd', .of_parent hp, rfl⟩

section Walk

variable (ht : BlockTree store) {x y lca : BlockHeader} {px py : List BlockHeader}
include ht

/-- Cursors with one hash are the lowest common ancestor itself: both walks are empty. -/
theorem walks_eq_nil_of_hash_eq (hx : Stored store x) (hy : Stored store y)
    (hdx : Descent (parentHeader store) x px lca) (hdy : Descent (parentHeader store) y py lca)
    (hl : IsLca (parentHeader store) lca x y) (h : y.hash = x.hash) : px = [] ∧ py = [] := by
  have hxy : y = x := stored_eq_of_hash_eq hy hx h
  subst hxy
  have hanc : IsAncestor (parentHeader store) y lca := hl.2.2 y (.refl y) (.refl y)
  exact ⟨hdx.eq_nil_of_isAncestor ht.graded hx hanc, hdy.eq_nil_of_isAncestor ht.graded hy hanc⟩

/-- The loop from two stored cursors returns the walks from each down to their lowest common
ancestor, the attach walk reversed onto the front of its list and the detach walk onto the back
of its own, given more fuel than the two walks are long. -/
theorem calcReorganizeChainLoop_spec : ∀ (fuel : Nat) {x y lca : BlockHeader}
    {px py accA accD : List BlockHeader}, Stored store x → Stored store y →
    Descent (parentHeader store) x px lca → Descent (parentHeader store) y py lca →
    IsLca (parentHeader store) lca x y → px.length + py.length < fuel →
    calcReorganizeChainLoop store fuel x y accA accD = some (.ok (px.reverse ++ accA, accD ++ py))
  | 0, _, _, _, _, _, _, _, _, _, _, _, _, hfuel => absurd hfuel (Nat.not_lt_zero _)
  | fuel + 1, x, y, lca, px, py, accA, accD, hx, hy, hdx, hdy, hl, hfuel => by
    by_cases h : y.hash = x.hash
    · -- the cursors have met at the ancestor
      obtain ⟨rfl, rfl⟩ := walks_eq_nil_of_hash_eq ht hx hy hdx hdy hl h
      rw [calcReorganizeChainLoop_of_hash_eq h, List.reverse_nil, List.nil_append, List.append_nil]
    · have hhx := hdx.height_eq ht.graded hx
      have hhy := hdy.height_eq ht.graded hy
      -- two empty walks would put both cursors on the ancestor
      have hmeet : px = [] → py = [] → False := by
        rintro rfl rfl
        exact h (by rw [hdx.eq_of_nil, hdy.eq_of_nil])
      obtain ⟨x', px', hrx, hdx', hax, hpx⟩ :=
        rollBack_of_descent (decide (x.height ≥ y.height)) hdx (by
          intro hr hnil
          subst hnil
          exact hmeet rfl (List.length_eq_zero_iff.mp (by simp at hr hhx; omega)))
      obtain ⟨y', py', hry, hdy', hay, hpy⟩ :=
        rollBack_of_descent (decide (x.height ≤ y.height)) hdy (by
          intro hr hnil
          subst hnil
          exact hmeet (List.length_eq_zero_iff.mp (by simp at hr hhy; omega)) rfl)
      have hl' : IsLca (parentHeader store) lca x' y' :=
        (hl.mono_left ⟨px', hdx'⟩ hax).mono_right ⟨py', hdy'⟩ hay
      -- at least one cursor moves, so the walks get shorter
      have hlt : px'.length + py'.length < fuel := by
        rw [hpx, hpy] at hfuel
        by_cases hge : x.height ≥ y.height <;> by_cases hle : x.height ≤ y.height <;>
          simp [hge, hle] at hfuel <;> omega
      rw [calcReorganizeChainLoop_of_rollBack h hrx hry,
        calcReorganizeChainLoop_spec fuel (hax.prop ht.graded hx) (hay.prop ht.graded hy) hdx' hdy' hl'
          hlt, hpx, hpy]
      cases decide (x.height ≥ y.height) <;> cases decide (x.height ≤ y.height) <;> simp

end Walk

/-- For two stored headers with a common ancestor, the lowest common ancestor exists, and
`calcReorganizeChain` returns the headers above it: up to `beginAttach` in ascending height
order, and down from `beginDetach` in descending height order. -/
theorem calcReorganizeChain_lca (ht : BlockTree store) {beginAttach beginDetach c : BlockHeader}
    (ha : Stored store beginAttach) (hd : Stored store beginDetach)
    (hca : IsAncestor (parentHeader store) c beginAttach)
    (hcd : IsAncestor (parentHeader store) c beginDetach) :
    (∃ lca, IsLca (parentHeader store) lca beginAttach beginDetach) ∧
    ∀ lca, IsLca (parentHeader store) lca beginAttach beginDetach →
      ∃ attach detach : List BlockHeader,
        Descent (parentHeader store) beginAttach attach.reverse lca ∧
        Descent (parentHeader store) beginDetach detach lca ∧
        attach.map BlockHeader.height = List.range' (lca.height + 1) attach.length ∧
        detach.map BlockHeader.height = (List.range' (lca.height + 1) detach.length).reverse ∧
        ∀ fuel, attach.length + detach.length < fuel →
          calcReorganizeChain store fuel beginAttach beginDetach = some (.ok (attach, detach)) := by
  refine ⟨exists_isLca ht.graded ha hca hcd, fun lca hl => ?_⟩
  obtain ⟨la, hla⟩ := hl.1
  obtain ⟨ld, hld⟩ := hl.2.1
  refine ⟨la.reverse, ld, by rwa [List.reverse_reverse], hld, ?_, hld.heights ht.graded hd,
    fun fuel hfuel => ?_⟩
  · rw [List.map_reverse, hla.heights ht.graded ha, List.reverse_reverse, List.length_reverse]
  · rw [List.length_reverse] at hfuel
    rw [calcReorganizeChain, calcReorganizeChainLoop_spec ht fuel ha hd hla hld hl hfuel,
      List.append_nil, List.nil_append]

end Store

/-! ## A sample tree -/

/-- The store holding a list of headers, each under its hash. -/
def storeOf (headers : List BlockHeader) (hash : Nat) : Option BlockHeader :=
  headers.find? (·.hash == hash)

/-- A list of headers each one above every header filed under its previous hash is a block
tree. -/
theorem blockTree_storeOf {headers : List BlockHeader}
    (h : ∀ x ∈ headers, ∀ p ∈ headers, p.hash = x.previousBlockHash → x.height = p.height + 1) :
    BlockTree (storeOf headers) where
  keyed := fun hx => by simpa using List.find?_some hx
  height_parent := fun hx hp =>
    h _ (List.mem_of_find?_eq_some hx) _ (List.mem_of_find?_eq_some hp) (by simpa using List.find?_some hp)

/-- Genesis, a main chain two blocks up, and a fork three blocks up. -/
def sampleHeaders : List BlockHeader :=
  [⟨1, 0, 0⟩, ⟨2, 1, 1⟩, ⟨3, 2, 2⟩, ⟨4, 1, 1⟩, ⟨5, 2, 4⟩, ⟨6, 3, 5⟩]

theorem sample_blockTree : BlockTree (storeOf sampleHeaders) :=
  blockTree_storeOf (by decide)

theorem calcReorganizeChain_lca_sample :
    BlockTree (storeOf sampleHeaders) ∧ Stored (storeOf sampleHeaders) ⟨6, 3, 5⟩ ∧
      Stored (storeOf sampleHeaders) ⟨3, 2, 2⟩ ∧
      IsAncestor (parentHeader (storeOf sampleHeaders)) ⟨1, 0, 0⟩ ⟨6, 3, 5⟩ ∧
      IsAncestor (parentHeader (storeOf sampleHeaders)) ⟨1, 0, 0⟩ ⟨3, 2, 2⟩ ∧
      ∃ lca, IsLca (parentHeader (storeOf sampleHeaders)) lca ⟨6, 3, 5⟩ ⟨3, 2, 2⟩ :=
  have ha : Stored (storeOf sampleHeaders) ⟨6, 3, 5⟩ := rfl
  have hd : Stored (storeOf sampleHeaders) ⟨3, 2, 2⟩ := rfl
  have hca : IsAncestor (parentHeader (storeOf sampleHeaders)) ⟨1, 0, 0⟩ ⟨6, 3, 5⟩ :=
    ⟨_, .cons rfl (.cons rfl (.cons rfl (.nil _)))⟩
  have hcd : IsAncestor (parentHeader (storeOf sampleHeaders)) ⟨1, 0, 0⟩ ⟨3, 2, 2⟩ :=
    ⟨_, .cons rfl (.cons rfl (.nil _))⟩
  ⟨sample_blockTree, ha, hd, hca, hcd, (calcReorganizeChain_lca sample_blockTree ha hd hca hcd).1⟩

-- the fork is attached from above genesis up, the main chain detached from its tip down
example : calcReorganizeChain (storeOf sampleHeaders) 6 ⟨6, 3, 5⟩ ⟨3, 2, 2⟩ =
    some (.ok ([⟨4, 1, 1⟩, ⟨5, 2, 4⟩, ⟨6, 3, 5⟩], [⟨3, 2, 2⟩, ⟨2, 1, 1⟩])) := rfl

end KuskCore.Protocol
