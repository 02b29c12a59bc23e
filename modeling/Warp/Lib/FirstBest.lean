import Mathlib.Tactic

namespace Warp

universe u v w

variable {α : Type u} {β : Type v} {γ : Type w}

section Head

variable [LinearOrder β]

def byScore (score : α → β) (a b : α) : Prop := score b ≤ score a

instance (score : α → β) : DecidableRel (byScore score) := fun a b => inferInstanceAs (Decidable (score b ≤ score a))

/-- The first of the values with the highest score, where `key` tells the values' order. -/
structure FirstBest [LinearOrder γ] (score : α → β) (key : α → γ) (xs : List α) (best : α) : Prop where
  member : best ∈ xs
  highest : ∀ x ∈ xs, score x ≤ score best
  first : ∀ x ∈ xs, key x < key best → score x < score best

variable [LinearOrder γ] {score : α → β} {key : α → γ} {xs : List α}

theorem exists_firstBest (sorted : xs.Pairwise fun a b => key a < key b) (nonempty : xs ≠ []) :
    ∃ best, (xs.insertionSort (byScore score)).head? = some best ∧ FirstBest score key xs best := by
  induction xs with
  | nil => exact absurd rfl nonempty
  | cons x xs ih =>
    obtain ⟨after, sorted⟩ := List.pairwise_cons.mp sorted
    rw [List.insertionSort_cons]
    by_cases last : xs = []
    · subst last
      refine ⟨x, rfl, List.mem_cons_self, ?_, ?_⟩
      · intro other member
        rw [List.mem_singleton.mp member]
      · intro other member before
        rw [List.mem_singleton.mp member] at before
        exact absurd before (lt_irrefl _)
    · obtain ⟨best, isHead, isBest⟩ := ih sorted last
      obtain ⟨rest, split⟩ := List.head?_eq_some_iff.mp isHead
      rw [split]
      by_cases better : byScore score x best
      · refine ⟨x, ?_, List.mem_cons_self, ?_, ?_⟩
        · rw [List.orderedInsert, if_pos better]
          rfl
        · intro other member
          rcases List.mem_cons.mp member with rfl | later
          · exact le_rfl
          · exact le_trans (isBest.highest other later) better
        · intro other member before
          rcases List.mem_cons.mp member with rfl | later
          · exact absurd before (lt_irrefl _)
          · exact absurd before (lt_asymm (after other later))
      · refine ⟨best, ?_, List.mem_cons_of_mem x isBest.member, ?_, ?_⟩
        · rw [List.orderedInsert, if_neg better]
          rfl
        · intro other member
          rcases List.mem_cons.mp member with rfl | later
          · exact (not_le.mp better).le
          · exact isBest.highest other later
        · intro other member before
          rcases List.mem_cons.mp member with rfl | later
          · exact not_le.mp better
          · exact isBest.first other later before

end Head

end Warp
