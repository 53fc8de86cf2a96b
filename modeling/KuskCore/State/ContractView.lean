import Mathlib
import KuskCore.Standard.Programs
import KuskCore.Types.Commitment

/-!
# The contract view

`protocol/state/contract_view.go`. A transaction registers a contract with an output whose
control program is a BCRP script; the registry maps the SHA3 hash of the contract to the
registering transaction's ID followed by the contract (`registration`, `registry`). The
registry of a chain keeps, for each hash, the earliest registration.

`ApplyBlock` records the registrations of attached blocks, keeping the first for each hash;
`DetachBlock` records those of detached blocks, transactions from the last, overwriting, so
that over the detached blocks, tip first, it too keeps the earliest. Both loops fail only when
a BCRP script does not parse, which never happens (`parseContract_of_isBCRPScript`), and what
they record is stated over the list of registrations: first wins (`attaches_foldlM_applyBlock`)
and last wins (`detaches_foldlM_detachBlock`).
-/

namespace KuskCore.State

open KuskCore.Types KuskCore.Vm

/-- `types.Tx`, with what the contract view reads: its ID and the control program of each
output. -/
structure ContractTx where
  id : Hash
  controlPrograms : List Bytes

/-- `types.Block`, with its transactions. -/
structure ContractBlock where
  transactions : List ContractTx

/-- `ContractViewpoint`. -/
structure ContractViewpoint where
  attachEntries : AList fun _ : Bytes => Bytes
  detachEntries : AList fun _ : Bytes => Bytes

/-- `NewContractViewpoint`. -/
def newContractViewpoint : ContractViewpoint := ⟨∅, ∅⟩

section View

-- `sha3pool.Sum256`
variable (sha3 : Bytes → Bytes)

/-- The body of `ApplyBlock`'s loop at one output; `none` is the error of `ParseContract`. -/
def attachOutput (txID : Hash) (view : ContractViewpoint) (program : Bytes) :
    Option ContractViewpoint :=
  if isBCRPScript program then
    match parseContract program with
    | none => none
    | some contract =>
      if sha3 contract ∈ view.attachEntries then some view
      else some { view with
        attachEntries := view.attachEntries.insert (sha3 contract) (txID.bytes ++ contract) }
  else some view

/-- `ContractViewpoint.ApplyBlock`. -/
def ContractViewpoint.applyBlock (block : ContractBlock) (view : ContractViewpoint) :
    Option ContractViewpoint :=
  block.transactions.foldlM (fun view tx => tx.controlPrograms.foldlM (attachOutput sha3 tx.id) view)
    view

/-- The body of `DetachBlock`'s loop at one output. -/
def detachOutput (txID : Hash) (view : ContractViewpoint) (program : Bytes) :
    Option ContractViewpoint :=
  if isBCRPScript program then
    match parseContract program with
    | none => none
    | some contract => some { view with
        detachEntries := view.detachEntries.insert (sha3 contract) (txID.bytes ++ contract) }
  else some view

/-- `ContractViewpoint.DetachBlock`: the transactions from the last to the first. -/
def ContractViewpoint.detachBlock (block : ContractBlock) (view : ContractViewpoint) :
    Option ContractViewpoint :=
  block.transactions.reverse.foldlM
    (fun view tx => tx.controlPrograms.foldlM (detachOutput sha3 tx.id) view) view

/-! ## The registry of a chain -/

/-- The registration an output makes, if its program is a BCRP script. -/
def registration (txID : Hash) (program : Bytes) : Option (Sigma fun _ : Bytes => Bytes) :=
  if isBCRPScript program then
    (parseContract program).map fun contract => ⟨sha3 contract, txID.bytes ++ contract⟩
  else none

/-- The registrations of a transaction, output by output. -/
def ContractTx.registrations (tx : ContractTx) : List (Sigma fun _ : Bytes => Bytes) :=
  tx.controlPrograms.filterMap (registration sha3 tx.id)

/-- The registrations of a chain, block by block. -/
def chainRegistrations (chain : List ContractBlock) : List (Sigma fun _ : Bytes => Bytes) :=
  chain.flatMap fun block => block.transactions.flatMap (ContractTx.registrations sha3)

/-- The registry of a chain: for each hash, the earliest registration. -/
def registry (chain : List ContractBlock) (hash : Bytes) : Option Bytes :=
  (chainRegistrations sha3 chain).dlookup hash

/-- No two registrations of a transaction share a hash but not a value: the transaction does not
register two contracts that collide under `sha3`. -/
def ContractTx.NoCollision (tx : ContractTx) : Prop :=
  ∀ e₁ ∈ tx.registrations sha3, ∀ e₂ ∈ tx.registrations sha3, e₁.1 = e₂.1 → e₁.2 = e₂.2

/-! ## What the loops record -/

/-- What `ApplyBlock` does: record the registrations `regs`, each hash keeping the first value
it gets. -/
def AttachesFirst (regs : List (Sigma fun _ : Bytes => Bytes)) (view view' : ContractViewpoint) :
    Prop :=
  view'.detachEntries = view.detachEntries ∧
    ∀ h, view'.attachEntries.lookup h = (view.attachEntries.lookup h).or (regs.dlookup h)

/-- What `DetachBlock` does: record the registrations `regs`, each hash keeping the last value
it gets. -/
def DetachesLast (regs : List (Sigma fun _ : Bytes => Bytes)) (view view' : ContractViewpoint) :
    Prop :=
  view'.attachEntries = view.attachEntries ∧
    ∀ h, view'.detachEntries.lookup h = (regs.reverse.dlookup h).or (view.detachEntries.lookup h)

theorem attachesFirst_nil (view : ContractViewpoint) : AttachesFirst [] view view :=
  ⟨rfl, fun h => by rw [List.dlookup_nil, Option.or_none]⟩

theorem AttachesFirst.append {regs₁ regs₂ : List (Sigma fun _ : Bytes => Bytes)}
    {view view' view'' : ContractViewpoint} (h₁ : AttachesFirst regs₁ view view')
    (h₂ : AttachesFirst regs₂ view' view'') : AttachesFirst (regs₁ ++ regs₂) view view'' :=
  ⟨h₂.1.trans h₁.1, fun h => by rw [h₂.2, h₁.2, List.dlookup_append, Option.or_assoc]⟩

theorem detachesLast_nil (view : ContractViewpoint) : DetachesLast [] view view :=
  ⟨rfl, fun h => by rw [List.reverse_nil, List.dlookup_nil, Option.none_or]⟩

theorem DetachesLast.append {regs₁ regs₂ : List (Sigma fun _ : Bytes => Bytes)}
    {view view' view'' : ContractViewpoint} (h₁ : DetachesLast regs₁ view view')
    (h₂ : DetachesLast regs₂ view' view'') : DetachesLast (regs₁ ++ regs₂) view view'' :=
  ⟨h₂.1.trans h₁.1, fun h => by
    rw [h₂.2, h₁.2, List.reverse_append, List.dlookup_append, Option.or_assoc]⟩

/-- A loop in `Option` whose body succeeds at every element, relating the states before and
after by `R` of that element's list, succeeds and relates its ends by `R` of all the lists, when
`R` composes along appends. -/
theorem foldlM_of_step {α β γ : Type} (R : List γ → β → β → Prop) (hnil : ∀ b, R [] b b)
    (happend : ∀ l₁ l₂ b b' b'', R l₁ b b' → R l₂ b' b'' → R (l₁ ++ l₂) b b'')
    (f : β → α → Option β) (L : α → List γ)
    (hstep : ∀ b a, ∃ b', f b a = some b' ∧ R (L a) b b') :
    ∀ (xs : List α) (b : β), ∃ b', xs.foldlM f b = some b' ∧ R (xs.flatMap L) b b'
  | [], b => ⟨b, rfl, hnil b⟩
  | x :: xs, b => by
    obtain ⟨b₁, hb₁, hR₁⟩ := hstep b x
    obtain ⟨b₂, hb₂, hR₂⟩ := foldlM_of_step R hnil happend f L hstep xs b₁
    refine ⟨b₂, ?_, ?_⟩
    · rw [List.foldlM_cons, hb₁]
      exact hb₂
    · rw [List.flatMap_cons]
      exact happend _ _ _ _ _ hR₁ hR₂

theorem dlookup_singleton_ne {k h : Bytes} {v : Bytes} (hne : h ≠ k) :
    [(⟨k, v⟩ : Sigma fun _ : Bytes => Bytes)].dlookup h = none := by
  rw [List.dlookup_cons_ne _ _ hne, List.dlookup_nil]

/-- One output, attached: its registration, unless the hash is already recorded. -/
theorem attachOutput_attaches (txID : Hash) (view : ContractViewpoint) (program : Bytes) :
    ∃ view', attachOutput sha3 txID view program = some view' ∧
      AttachesFirst (registration sha3 txID program).toList view view' := by
  unfold attachOutput registration
  by_cases hb : isBCRPScript program = true
  · obtain ⟨contract, hc⟩ := parseContract_of_isBCRPScript hb
    simp only [hb, if_true, hc, Option.map_some, Option.toList_some]
    by_cases hm : sha3 contract ∈ view.attachEntries
    · -- the hash keeps its first value
      refine ⟨view, by rw [if_pos hm], rfl, fun h => ?_⟩
      by_cases hh : h = sha3 contract
      · subst hh
        obtain ⟨v, hv⟩ := Option.isSome_iff_exists.mp (AList.lookup_isSome.mpr hm)
        rw [hv, Option.some_or]
      · rw [dlookup_singleton_ne hh, Option.or_none]
    · refine ⟨{ view with
        attachEntries := view.attachEntries.insert (sha3 contract) (txID.bytes ++ contract) },
        by rw [if_neg hm], rfl, fun h => ?_⟩
      by_cases hh : h = sha3 contract
      · subst hh
        rw [AList.lookup_insert, AList.lookup_eq_none.mpr hm, Option.none_or, List.dlookup_cons_eq]
      · rw [AList.lookup_insert_ne hh, dlookup_singleton_ne hh, Option.or_none]
  · simp only [hb, Bool.false_eq_true, if_false, Option.toList_none]
    exact ⟨view, rfl, attachesFirst_nil view⟩

/-- One output, detached: its registration overwrites. -/
theorem detachOutput_detaches (txID : Hash) (view : ContractViewpoint) (program : Bytes) :
    ∃ view', detachOutput sha3 txID view program = some view' ∧
      DetachesLast (registration sha3 txID program).toList view view' := by
  unfold detachOutput registration
  by_cases hb : isBCRPScript program = true
  · obtain ⟨contract, hc⟩ := parseContract_of_isBCRPScript hb
    simp only [hb, if_true, hc, Option.map_some, Option.toList_some]
    refine ⟨_, rfl, rfl, fun h => ?_⟩
    rw [List.reverse_singleton]
    by_cases hh : h = sha3 contract
    · subst hh
      rw [AList.lookup_insert, List.dlookup_cons_eq, Option.some_or]
    · rw [AList.lookup_insert_ne hh, dlookup_singleton_ne hh, Option.none_or]
  · simp only [hb, Bool.false_eq_true, if_false, Option.toList_none]
    exact ⟨view, rfl, detachesLast_nil view⟩

/-- Attaching blocks one after the other, from any view: the registrations of the blocks, in
order, first wins. -/
theorem attaches_foldlM_applyBlock (blocks : List ContractBlock) (view : ContractViewpoint) :
    ∃ view', blocks.foldlM (fun view block => view.applyBlock sha3 block) view = some view' ∧
      AttachesFirst (chainRegistrations sha3 blocks) view view' := by
  have htx : ∀ (view : ContractViewpoint) (tx : ContractTx), ∃ view',
      tx.controlPrograms.foldlM (attachOutput sha3 tx.id) view = some view' ∧
        AttachesFirst (tx.registrations sha3) view view' := by
    intro view tx
    rw [ContractTx.registrations, List.filterMap_eq_flatMap_toList]
    exact foldlM_of_step AttachesFirst attachesFirst_nil (fun _ _ _ _ _ => AttachesFirst.append)
      _ _ (attachOutput_attaches sha3 tx.id) _ view
  have hblock : ∀ (view : ContractViewpoint) (block : ContractBlock), ∃ view',
      view.applyBlock sha3 block = some view' ∧
        AttachesFirst (block.transactions.flatMap (ContractTx.registrations sha3)) view view' :=
    fun view block => foldlM_of_step AttachesFirst attachesFirst_nil
      (fun _ _ _ _ _ => AttachesFirst.append) _ _ htx _ view
  exact foldlM_of_step AttachesFirst attachesFirst_nil (fun _ _ _ _ _ => AttachesFirst.append)
    _ _ hblock blocks view

/-- Detaching blocks one after the other, from any view: each block's transactions from the
last, each transaction's outputs in order, last wins. -/
theorem detaches_foldlM_detachBlock (blocks : List ContractBlock) (view : ContractViewpoint) :
    ∃ view', blocks.foldlM (fun view block => view.detachBlock sha3 block) view = some view' ∧
      DetachesLast (blocks.flatMap fun block =>
        block.transactions.reverse.flatMap (ContractTx.registrations sha3)) view view' := by
  have htx : ∀ (view : ContractViewpoint) (tx : ContractTx), ∃ view',
      tx.controlPrograms.foldlM (detachOutput sha3 tx.id) view = some view' ∧
        DetachesLast (tx.registrations sha3) view view' := by
    intro view tx
    rw [ContractTx.registrations, List.filterMap_eq_flatMap_toList]
    exact foldlM_of_step DetachesLast detachesLast_nil (fun _ _ _ _ _ => DetachesLast.append)
      _ _ (detachOutput_detaches sha3 tx.id) _ view
  have hblock : ∀ (view : ContractViewpoint) (block : ContractBlock), ∃ view',
      view.detachBlock sha3 block = some view' ∧
        DetachesLast (block.transactions.reverse.flatMap (ContractTx.registrations sha3))
          view view' :=
    fun view block => foldlM_of_step DetachesLast detachesLast_nil
      (fun _ _ _ _ _ => DetachesLast.append) _ _ htx _ view
  exact foldlM_of_step DetachesLast detachesLast_nil (fun _ _ _ _ _ => DetachesLast.append)
    _ _ hblock blocks view

/-! ## From the recorded lists to the registry -/

theorem dlookup_flatMap_congr {α : Type} {f g : α → List (Sigma fun _ : Bytes => Bytes)}
    (h : Bytes) : ∀ {xs : List α}, (∀ x ∈ xs, (f x).dlookup h = (g x).dlookup h) →
      (xs.flatMap f).dlookup h = (xs.flatMap g).dlookup h
  | [], _ => rfl
  | x :: xs, hfg => by
    rw [List.flatMap_cons, List.flatMap_cons, List.dlookup_append, List.dlookup_append,
      hfg x (List.mem_cons_self ..), dlookup_flatMap_congr h fun y hy => hfg y (List.mem_cons_of_mem _ hy)]

/-- A list in which a hash has one value finds it from either end. -/
theorem dlookup_reverse_of_unique (h : Bytes) :
    ∀ {l : List (Sigma fun _ : Bytes => Bytes)},
      (∀ e₁ ∈ l, ∀ e₂ ∈ l, e₁.1 = e₂.1 → e₁.2 = e₂.2) → l.reverse.dlookup h = l.dlookup h
  | [], _ => rfl
  | ⟨k, v⟩ :: l, hl => by
    have ih := dlookup_reverse_of_unique h fun e₁ h₁ e₂ h₂ =>
      hl e₁ (List.mem_cons_of_mem _ h₁) e₂ (List.mem_cons_of_mem _ h₂)
    rw [List.reverse_cons, List.dlookup_append, ih]
    by_cases hh : h = k
    · -- a later value of the hash is the first one
      subst hh
      rw [List.dlookup_cons_eq, List.dlookup_cons_eq]
      cases hv : l.dlookup h with
      | none => rfl
      | some v' =>
        have hmem : (⟨h, v'⟩ : Sigma fun _ : Bytes => Bytes) ∈ l := List.of_mem_dlookup hv
        have hsame : v' = v := hl _ (List.mem_cons_of_mem _ hmem) _ (List.mem_cons_self ..) rfl
        rw [Option.some_or, hsame]
    · rw [dlookup_singleton_ne hh, Option.or_none, List.dlookup_cons_ne _ _ hh]

/-- Detached from the tip, each block's transactions from the last: the last registration of a
hash written is its earliest on the chain, when no transaction registers two colliding
contracts. -/
theorem dlookup_detachRegistrations (blocks : List ContractBlock)
    (hnc : ∀ block ∈ blocks, ∀ tx ∈ block.transactions, tx.NoCollision sha3) (h : Bytes) :
    (blocks.reverse.flatMap fun block =>
        block.transactions.reverse.flatMap (ContractTx.registrations sha3)).reverse.dlookup h =
      registry sha3 blocks h := by
  rw [List.reverse_flatMap, List.reverse_reverse, registry, chainRegistrations]
  apply dlookup_flatMap_congr h
  intro block hblock
  rw [Function.comp_apply, List.reverse_flatMap, List.reverse_reverse]
  apply dlookup_flatMap_congr h
  intro tx htx
  exact dlookup_reverse_of_unique h (hnc block hblock tx htx)

end View

end KuskCore.State
