import Mathlib

/-!
# Ancestry along parent links

Each node links to at most one parent (`parent : α → Option α`). `Descent parent a l b` says that
following the links from `a` passes through the nodes of `l`, `a` first, and then reaches `b`;
`b` is then an ancestor of `a` (`IsAncestor`), and a lowest common ancestor of two nodes is a
common ancestor below which every other one lies (`IsLca`).

On a set of nodes closed under the links and graded by a height that drops by one per link
(`Graded`), a descent is as long as the drop in height (`Descent.height_eq`), the ancestors of a
node are ordered by height (`IsAncestor.total`), and two nodes with a common ancestor have a
lowest one (`exists_isLca`), which is unique (`IsLca.unique`).

The first node with a property `Q` on the way down from `a`, `a` included (`IsNearest`), is one
node (`IsNearest.unique`); on graded links it is the highest ancestor of `a` with `Q`
(`IsNearest.height_le`).
-/

namespace ParentChain

variable {α : Type} (parent : α → Option α)

/-- A walk down the parent links from the first node to the last, the last left out. -/
inductive Descent : α → List α → α → Prop
  | nil (a : α) : Descent a [] a
  | cons {a p b : α} {l : List α} : parent a = some p → Descent p l b → Descent a (a :: l) b

/-- `c` is reached from `a` by the parent links. -/
def IsAncestor (c a : α) : Prop := ∃ l, Descent parent a l c

/-- `c` is a common ancestor of `a` and `b`, and every common ancestor is an ancestor of `c`. -/
def IsLca (c a b : α) : Prop :=
  IsAncestor parent c a ∧ IsAncestor parent c b ∧
    ∀ c', IsAncestor parent c' a → IsAncestor parent c' b → IsAncestor parent c' c

/-- `c` is the first node with `Q` on the way down from `a`, `a` itself included. -/
def IsNearest (Q : α → Prop) (a c : α) : Prop :=
  ∃ l, Descent parent a l c ∧ Q c ∧ ∀ x ∈ l, ¬Q x

/-- The nodes of `P` link only into `P`, and one link down is one unit of height down. -/
structure Graded (P : α → Prop) (height : α → Nat) : Prop where
  closed : ∀ {a p}, P a → parent a = some p → P p
  height_parent : ∀ {a p}, P a → parent a = some p → height a = height p + 1

variable {parent}

/-! ## Descents -/

theorem Descent.trans {a b c : α} {l m : List α} (h₁ : Descent parent a l b)
    (h₂ : Descent parent b m c) : Descent parent a (l ++ m) c := by
  induction h₁ with
  | nil => exact h₂
  | cons hp _ ih => exact .cons hp (ih h₂)

/-- A walk along links that another link function also has is a walk along those. -/
theorem Descent.mono {parent' : α → Option α}
    (hpp : ∀ {a p}, parent a = some p → parent' a = some p) {a b : α} {l : List α} (h : Descent parent a l b) : Descent parent' a l b := by
  induction h with
  | nil => exact .nil _
  | cons hp _ ih => exact .cons (hpp hp) ih

theorem Descent.head {a b x : α} {l : List α} (h : Descent parent a (x :: l) b) : x = a := by
  cases h
  rfl

theorem Descent.eq_of_nil {a b : α} (h : Descent parent a [] b) : a = b := by
  cases h
  rfl

/-- A descent splits at any point of its list. -/
theorem Descent.split {a c : α} : ∀ {l m : List α}, Descent parent a (l ++ m) c →
    ∃ b, Descent parent a l b ∧ Descent parent b m c
  | [], _, h => ⟨a, .nil a, h⟩
  | _ :: _, _, h => by
    cases h with
    | cons hp h' =>
      obtain ⟨b, hl, hm⟩ := Descent.split h'
      exact ⟨b, .cons hp hl, hm⟩

/-- Links are functions, so a descent of a given length from a node ends at one node. -/
theorem Descent.eq_of_length {a b b' : α} {l l' : List α} (h : Descent parent a l b)
    (h' : Descent parent a l' b') (hlen : l.length = l'.length) : b = b' := by
  induction h generalizing l' with
  | nil => rw [(List.length_eq_zero_iff.mp hlen.symm)] at h'; exact h'.eq_of_nil
  | cons hp _ ih =>
    cases h' with
    | nil => exact absurd hlen (by simp)
    | cons hp' h' =>
      rw [hp, Option.some.injEq] at hp'
      subst hp'
      exact ih h' (by simpa using hlen)

/-! ## Ancestors -/

theorem IsAncestor.refl (a : α) : IsAncestor parent a a := ⟨[], .nil a⟩

theorem IsAncestor.trans {a b c : α} (h₁ : IsAncestor parent c b) (h₂ : IsAncestor parent b a) :
    IsAncestor parent c a := by
  obtain ⟨l, hl⟩ := h₁
  obtain ⟨m, hm⟩ := h₂
  exact ⟨m ++ l, hm.trans hl⟩

theorem IsAncestor.of_parent {a p : α} (hp : parent a = some p) : IsAncestor parent p a :=
  ⟨[a], .cons hp (.nil p)⟩

theorem IsLca.mono_left {a a' b c : α} (h : IsLca parent c a b) (hc : IsAncestor parent c a')
    (ha : IsAncestor parent a' a) : IsLca parent c a' b :=
  ⟨hc, h.2.1, fun c' h₁ h₂ => h.2.2 c' (h₁.trans ha) h₂⟩

theorem IsLca.mono_right {a b b' c : α} (h : IsLca parent c a b) (hc : IsAncestor parent c b')
    (hb : IsAncestor parent b' b) : IsLca parent c a b' :=
  ⟨h.1, hc, fun c' h₁ h₂ => h.2.2 c' h₁ (h₂.trans hb)⟩

/-! ## The nearest node with a property -/

section Nearest

variable {Q : α → Prop}

theorem isNearest_self {a : α} (ha : Q a) : IsNearest parent Q a a :=
  ⟨[], .nil a, ha, fun _ hx => absurd hx List.not_mem_nil⟩

/-- Walking down through nodes without `Q` keeps the nearest node with `Q`. -/
theorem IsNearest.of_descent {a b c : α} {l : List α} (h : Descent parent a l b)
    (hl : ∀ x ∈ l, ¬Q x) (hb : IsNearest parent Q b c) : IsNearest parent Q a c := by
  obtain ⟨m, hm, hc, hn⟩ := hb
  refine ⟨l ++ m, h.trans hm, hc, fun x hx => ?_⟩
  rcases List.mem_append.mp hx with hx | hx
  · exact hl x hx
  · exact hn x hx

theorem IsNearest.cons {a p c : α} (hp : parent a = some p) (ha : ¬Q a)
    (h : IsNearest parent Q p c) : IsNearest parent Q a c :=
  h.of_descent (.cons hp (.nil p)) (by simpa using ha)

/-- Below a node without `Q`, the nearest node with `Q` is its parent's. -/
theorem IsNearest.exists_parent {a c : α} (h : IsNearest parent Q a c) (ha : ¬Q a) :
    ∃ p, parent a = some p ∧ IsNearest parent Q p c := by
  obtain ⟨l, hl, hc, hn⟩ := h
  cases hl with
  | nil => exact absurd hc ha
  | cons hp hl' => exact ⟨_, hp, _, hl', hc, fun x hx => hn x (List.mem_cons_of_mem _ hx)⟩

/-- The start of a walk through nodes without `Q` to a node without `Q` lacks `Q`. -/
theorem Descent.not_start {a b : α} {l : List α} (h : Descent parent a l b)
    (hl : ∀ x ∈ l, ¬Q x) (hb : ¬Q b) : ¬Q a := by
  cases h with
  | nil => exact hb
  | cons _ _ => exact hl a List.mem_cons_self

theorem IsNearest.mono {parent' : α → Option α}
    (hpp : ∀ {a p}, parent a = some p → parent' a = some p) {a c : α} (h : IsNearest parent Q a c) : IsNearest parent' Q a c := by
  obtain ⟨l, hl, hc, hn⟩ := h
  exact ⟨l, hl.mono hpp, hc, hn⟩

/-- Links are functions, so the nearest node with `Q` is one node. -/
theorem IsNearest.unique {a c c' : α} (h : IsNearest parent Q a c) (h' : IsNearest parent Q a c') :
    c = c' := by
  obtain ⟨l, hl, hc, hn⟩ := h
  induction hl with
  | nil a =>
    -- `a` has `Q`, so the other walk stops at once as well
    obtain ⟨l', hl', hc', hn'⟩ := h'
    cases hl' with
    | nil => rfl
    | cons _ _ => exact absurd hc (hn' _ List.mem_cons_self)
  | cons hp _ ih =>
    obtain ⟨p', hp', h'⟩ := h'.exists_parent (hn _ List.mem_cons_self)
    rw [hp, Option.some.injEq] at hp'
    subst hp'
    exact ih h' hc (fun x hx => hn x (List.mem_cons_of_mem _ hx))

end Nearest

/-! ## Graded links -/

section Graded

variable {P : α → Prop} {height : α → Nat} (hg : Graded parent P height)
include hg

theorem Descent.prop {a b : α} {l : List α} (ha : P a) (h : Descent parent a l b) : P b := by
  induction h with
  | nil => exact ha
  | cons hp _ ih => exact ih (hg.closed ha hp)

theorem IsAncestor.prop {a c : α} (ha : P a) (h : IsAncestor parent c a) : P c := by
  obtain ⟨l, hl⟩ := h
  exact hl.prop hg ha

theorem Descent.height_eq {a b : α} {l : List α} (ha : P a) (h : Descent parent a l b) :
    height a = height b + l.length := by
  induction h with
  | nil => rfl
  | cons hp _ ih =>
    rw [hg.height_parent ha hp, ih (hg.closed ha hp), List.length_cons]
    omega

/-- The heights along a descent count down by one to just above its end. -/
theorem Descent.heights {a b : α} {l : List α} (ha : P a) (h : Descent parent a l b) :
    l.map height = (List.range' (height b + 1) l.length).reverse := by
  induction h with
  | nil => rfl
  | @cons a p b l hp h ih =>
    have hpa := hg.height_parent ha hp
    have hpb := h.height_eq hg (hg.closed ha hp)
    rw [List.map_cons, ih (hg.closed ha hp), List.length_cons, List.range'_concat,
      List.reverse_append, List.reverse_singleton, List.singleton_append]
    congr 1
    omega

theorem IsAncestor.height_le {a c : α} (ha : P a) (h : IsAncestor parent c a) : height c ≤ height a := by
  obtain ⟨l, hl⟩ := h
  have := hl.height_eq hg ha
  omega

/-- A descent to an ancestor of its start is empty. -/
theorem Descent.eq_nil_of_isAncestor {a b : α} {l : List α} (ha : P a) (h : Descent parent a l b)
    (hab : IsAncestor parent a b) : l = [] := by
  have hlen := h.height_eq hg ha
  have hle := hab.height_le hg (h.prop hg ha)
  exact List.length_eq_zero_iff.mp (by omega)

theorem IsAncestor.antisymm {a c : α} (ha : P a) (h₁ : IsAncestor parent c a)
    (h₂ : IsAncestor parent a c) : c = a := by
  obtain ⟨l, hl⟩ := h₁
  rw [hl.eq_nil_of_isAncestor hg ha h₂] at hl
  exact hl.eq_of_nil.symm

/-- Of two ancestors of one node, the lower is an ancestor of the higher. -/
theorem IsAncestor.total {a c₁ c₂ : α} (ha : P a) (h₁ : IsAncestor parent c₁ a)
    (h₂ : IsAncestor parent c₂ a) (hle : height c₂ ≤ height c₁) : IsAncestor parent c₂ c₁ := by
  obtain ⟨l₁, hl₁⟩ := h₁
  obtain ⟨l₂, hl₂⟩ := h₂
  have hlen₁ := hl₁.height_eq hg ha
  have hlen₂ := hl₂.height_eq hg ha
  -- cut the longer descent where the shorter one ends
  rw [← List.take_append_drop l₁.length l₂] at hl₂
  obtain ⟨b, htake, hdrop⟩ := hl₂.split
  have hb : c₁ = b := hl₁.eq_of_length htake (by rw [List.length_take]; omega)
  exact ⟨_, hb ▸ hdrop⟩

/-- Two nodes with a common ancestor have a lowest one: a common ancestor of greatest height. -/
theorem exists_isLca {a b c : α} (ha : P a) (hca : IsAncestor parent c a) (hcb : IsAncestor parent c b) :
    ∃ lca, IsLca parent lca a b := by
  classical
  let common := fun n => ∃ c, IsAncestor parent c a ∧ IsAncestor parent c b ∧ height c = n
  have hc : common (height c) := ⟨c, hca, hcb, rfl⟩
  obtain ⟨lca, hla, hlb, hlh⟩ := Nat.findGreatest_spec (hca.height_le hg ha) hc
  refine ⟨lca, hla, hlb, fun c' h₁ h₂ => hla.total hg ha h₁ ?_⟩
  rw [hlh]
  exact Nat.le_findGreatest (h₁.height_le hg ha) ⟨c', h₁, h₂, rfl⟩

theorem IsLca.unique {a b c c' : α} (ha : P a) (h : IsLca parent c a b) (h' : IsLca parent c' a b) :
    c = c' := by
  exact IsAncestor.antisymm hg (h'.1.prop hg ha) (h'.2.2 c h.1 h.2.1) (h.2.2 c' h'.1 h'.2.1)

/-- The nearest node with `Q` is the highest ancestor with `Q`. -/
theorem IsNearest.height_le {Q : α → Prop} {a c d : α} (ha : P a) (h : IsNearest parent Q a c)
    (hd : IsAncestor parent d a) (hQ : Q d) : height d ≤ height c := by
  obtain ⟨l, hl, -, hn⟩ := h
  obtain ⟨m, hm⟩ := hd
  by_contra hlt
  have hlen : m.length < l.length := by
    have hl' := hl.height_eq hg ha
    have hm' := hm.height_eq hg ha
    omega
  -- the walk to `c` passes `d` after as many links as the walk to `d`
  rw [← List.take_append_drop m.length l] at hl
  obtain ⟨b, htake, hdrop⟩ := hl.split
  have hb : d = b := hm.eq_of_length htake (by rw [List.length_take]; omega)
  obtain ⟨x, r, hxr⟩ := List.exists_cons_of_ne_nil (by simpa using hlen : l.drop m.length ≠ [])
  rw [hxr] at hdrop
  have hx : x ∈ l := List.mem_of_mem_drop (hxr ▸ List.mem_cons_self)
  rw [hdrop.head, ← hb] at hx
  exact hn d hx hQ

end Graded

end ParentChain
