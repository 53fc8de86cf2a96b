import Mathlib

/-!
# Greedy matching of a list into another in order

Given keys `xs`, items `ys` and a relation `r`, `greedyMatch` walks the keys once: a key that
accepts the next item consumes it, and every key is consumed. The items left over are `[]`
exactly when `ys` embeds in `xs` along `r`, that is when a strictly increasing map sends each
item to a key that accepts it (`greedyMatch_eq_nil_iff`).

Greedy is complete by an exchange argument: in an embedding, the first item's key can be moved
to the first key that accepts it, since every later item's key lies beyond the original one.
In the induction this is `Embeds.of_cons` (an embedding of `b :: ys` gives one of `ys` on the
same keys) together with the case split of `embeds_cons_cons_iff`.
-/

namespace GreedyMatch

variable {α β : Type} (r : α → β → Bool)

/-- The greedy scan: the items that no key consumed. -/
def greedyMatch : List α → List β → List β
  | a :: as, b :: bs => if r a b then greedyMatch as bs else greedyMatch as (b :: bs)
  | _, bs => bs

/-- `ys` embeds in `xs` along `r`: the embedding as a relation, built key by key. -/
inductive Embeds : List α → List β → Prop
  | nil (xs : List α) : Embeds xs []
  | skip (a : α) {xs : List α} {ys : List β} : Embeds xs ys → Embeds (a :: xs) ys
  | take {a : α} {b : β} {xs : List α} {ys : List β} :
      r a b = true → Embeds xs ys → Embeds (a :: xs) (b :: ys)

/-- A strictly increasing map from the positions of `ys` to those of `xs` along which `r`
holds. -/
def EmbedsByIndex (xs : List α) (ys : List β) : Prop :=
  ∃ f : Fin ys.length → Fin xs.length, StrictMono f ∧ ∀ i, r (xs.get (f i)) (ys.get i) = true

variable {r}

/-- Dropping the first item keeps an embedding, on the same keys. -/
theorem Embeds.of_cons {xs : List α} {b : β} {ys : List β} (h : Embeds r xs (b :: ys)) :
    Embeds r xs ys := by
  induction xs generalizing ys with
  | nil => cases h
  | cons a xs ih =>
    cases h with
    | skip _ h => exact .skip a (ih h)
    | take _ h => exact .skip a h

theorem embeds_nil_right (xs : List α) : Embeds r xs [] := .nil xs

theorem not_embeds_nil_left {b : β} {ys : List β} : ¬ Embeds r [] (b :: ys) := nofun

/-- The first key takes the first item exactly when it accepts it and the rest embeds further
on; otherwise the first key is skipped. -/
theorem embeds_cons_cons_iff {a : α} {xs : List α} {b : β} {ys : List β} :
    Embeds r (a :: xs) (b :: ys) ↔
      (r a b = true ∧ Embeds r xs ys) ∨ (r a b = false ∧ Embeds r xs (b :: ys)) := by
  constructor
  · intro h
    cases hr : r a b with
    | true =>
      -- greedy takes the item: an embedding that skipped `a` still embeds the rest
      cases h with
      | skip _ h => exact .inl ⟨rfl, h.of_cons⟩
      | take _ h => exact .inl ⟨rfl, h⟩
    | false =>
      cases h with
      | skip _ h => exact .inr ⟨rfl, h⟩
      | take hab _ => exact absurd hab (by rw [hr]; decide)
  · rintro (⟨hab, h⟩ | ⟨-, h⟩)
    · exact .take hab h
    · exact .skip a h

/-- Greedy leaves no item exactly when the items embed in the keys. -/
theorem greedyMatch_eq_nil_iff : ∀ (xs : List α) (ys : List β),
    greedyMatch r xs ys = [] ↔ Embeds r xs ys
  | [], [] => ⟨fun _ => .nil [], fun _ => rfl⟩
  | [], b :: ys => ⟨nofun, fun h => absurd h not_embeds_nil_left⟩
  | _ :: _, [] => ⟨fun _ => .nil _, fun _ => by unfold greedyMatch; rfl⟩
  | a :: xs, b :: ys => by
    rw [embeds_cons_cons_iff]
    unfold greedyMatch
    cases hr : r a b with
    | true => simp only [if_true, greedyMatch_eq_nil_iff xs ys, true_and, Bool.true_eq_false,
        false_and, or_false]
    | false => simp only [Bool.false_eq_true, if_false, greedyMatch_eq_nil_iff xs (b :: ys),
        false_and, true_and, false_or]

/-! ## The embedding as a strictly increasing map of positions -/

theorem embedsByIndex_nil_right (xs : List α) : EmbedsByIndex r xs [] :=
  ⟨Fin.elim0, fun i => Fin.elim0 i, fun i => Fin.elim0 i⟩

theorem EmbedsByIndex.skip (a : α) {xs : List α} {ys : List β} (h : EmbedsByIndex r xs ys) :
    EmbedsByIndex r (a :: xs) ys := by
  obtain ⟨f, hmono, hr⟩ := h
  exact ⟨fun i => (f i).succ, fun i j hij => Fin.succ_lt_succ_iff.mpr (hmono hij), hr⟩

theorem EmbedsByIndex.take {a : α} {b : β} {xs : List α} {ys : List β} (hab : r a b = true)
    (h : EmbedsByIndex r xs ys) : EmbedsByIndex r (a :: xs) (b :: ys) := by
  obtain ⟨f, hmono, hr⟩ := h
  refine ⟨Fin.cases 0 fun i => (f i).succ, ?_, ?_⟩
  · -- the first item goes to the first key, the others beyond it in their order
    intro i j hij
    cases i using Fin.cases with
    | zero =>
      cases j using Fin.cases with
      | zero => exact absurd hij (lt_irrefl 0)
      | succ j => exact Fin.succ_pos _
    | succ i =>
      cases j using Fin.cases with
      | zero => exact absurd hij (Fin.not_lt_zero _)
      | succ j => exact Fin.succ_lt_succ_iff.mpr (hmono (Fin.succ_lt_succ_iff.mp hij))
  · intro i
    cases i using Fin.cases with
    | zero => exact hab
    | succ i => exact hr i

/-- A strictly increasing map of positions gives the embedding: the keys before the first
item's key are skipped, and the first item's key takes it. -/
theorem EmbedsByIndex.embeds : ∀ {xs : List α} {ys : List β}, EmbedsByIndex r xs ys →
    Embeds r xs ys
  | _, [], _ => .nil _
  | [], _ :: _, ⟨f, _, _⟩ => Fin.elim0 (f 0)
  | a :: xs, b :: ys, ⟨f, hmono, hr⟩ => by
    by_cases h0 : f 0 = 0
    · -- `a` takes `b`; the other items go to keys past the first
      have hpos : ∀ i : Fin ys.length, f i.succ ≠ 0 := fun i he =>
        absurd (hmono (Fin.succ_pos i)) (by rw [he, h0]; exact lt_irrefl 0)
      refine .take (by simpa [h0] using hr 0) (EmbedsByIndex.embeds ⟨fun i => (f i.succ).pred
        (hpos i), fun i j hij => ?_, fun i => ?_⟩)
      · exact Fin.pred_lt_pred_iff.mpr (hmono (Fin.succ_lt_succ_iff.mpr hij))
      · have h := hr i.succ
        rwa [← Fin.succ_pred (f i.succ) (hpos i)] at h
    · -- `a` is skipped: every item goes to a key past the first
      have hpos : ∀ i : Fin (ys.length + 1), f i ≠ 0 := fun i he =>
        h0 (Fin.le_zero_iff.mp (he ▸ hmono.monotone (Fin.zero_le i)))
      refine .skip a (EmbedsByIndex.embeds ⟨fun i => (f i).pred (hpos i), fun i j hij => ?_,
        fun i => ?_⟩)
      · exact Fin.pred_lt_pred_iff.mpr (hmono hij)
      · have h := hr i
        rwa [← Fin.succ_pred (f i) (hpos i)] at h

theorem Embeds.embedsByIndex {xs : List α} {ys : List β} (h : Embeds r xs ys) :
    EmbedsByIndex r xs ys := by
  induction h with
  | nil xs => exact embedsByIndex_nil_right xs
  | skip a _ ih => exact ih.skip a
  | take hab _ ih => exact ih.take hab

theorem embeds_iff_embedsByIndex {xs : List α} {ys : List β} :
    Embeds r xs ys ↔ EmbedsByIndex r xs ys :=
  ⟨Embeds.embedsByIndex, EmbedsByIndex.embeds⟩

/-- Greedy leaves no item exactly when a strictly increasing map of positions embeds the items
in the keys. -/
theorem greedyMatch_eq_nil_iff_embedsByIndex {xs : List α} {ys : List β} :
    greedyMatch r xs ys = [] ↔ EmbedsByIndex r xs ys :=
  (greedyMatch_eq_nil_iff xs ys).trans embeds_iff_embedsByIndex

end GreedyMatch
