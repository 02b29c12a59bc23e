import Warp.Diff.Validation

namespace Warp.Diff

open Str

section Score

variable {scorer : List Str → ℚ} {size : ℕ} {threshold : ℚ} {xs : List Str} {i j : ℕ}

/-- The first of the windows with the highest score, if that reaches the threshold. -/
def BestWindow (scorer : List Str → ℚ) (size : ℕ) (threshold : ℚ) (xs : List Str) (i : ℕ) : Prop :=
  i + size ≤ xs.length ∧ threshold ≤ scorer (window xs size i) ∧
    (∀ j < i, scorer (window xs size j) < scorer (window xs size i)) ∧
    ∀ j < xs.length + 1 - size, scorer (window xs size j) ≤ scorer (window xs size i)

def Reaches (scorer : List Str → ℚ) (size : ℕ) (threshold : ℚ) (xs : List Str) : Prop :=
  ∃ j < xs.length + 1 - size, threshold ≤ scorer (window xs size j)

instance : Decidable (BestWindow scorer size threshold xs i) := inferInstanceAs (Decidable (_ ∧ _ ∧ _ ∧ _))

instance : Decidable (Reaches scorer size threshold xs) := inferInstanceAs (Decidable (∃ j < _, _))

theorem BestWindow.reaches (best : BestWindow scorer size threshold xs i) : Reaches scorer size threshold xs :=
  ⟨i, by have := best.1; omega, best.2.1⟩

theorem BestWindow.unique (best : BestWindow scorer size threshold xs i)
    (other : BestWindow scorer size threshold xs j) : i = j := by
  have insideI := best.1
  have insideJ := other.1
  rcases Nat.lt_trichotomy i j with before | same | after
  · exact absurd (best.2.2.2 j (by omega)) (not_le_of_gt (other.2.2.1 i before))
  · exact same
  · exact absurd (other.2.2.2 i (by omega)) (not_le_of_gt (best.2.2.1 j after))

def matchAt (scorer : List Str → ℚ) (size : ℕ) (xs : List Str) (i : ℕ) : Match :=
  ⟨i + 1, i + size + 1, scorer (window xs size i)⟩

theorem scoreMatches_eq (positive : 0 < size) (fits : size ≤ xs.length) :
    scoreMatches xs size threshold none scorer =
      (((List.range (xs.length + 1 - size)).filter fun i => threshold ≤ scorer (window xs size i)).map
        (matchAt scorer size xs)).insertionSort (byScore (rank none)) := by
  unfold scoreMatches
  rw [if_neg (by omega)]
  dsimp only
  rw [← List.filterMap_eq_map, List.filterMap_filter]
  congr 2
  funext i
  by_cases reaches : threshold ≤ scorer (window xs size i) <;> simp [reaches, matchAt]

theorem rank_lt_iff {a b : Match} : rank none a < rank none b ↔ a.similarity < b.similarity := by
  simp [rank, Prod.Lex.toLex_lt_toLex]

theorem rank_le_iff {a b : Match} : rank none a ≤ rank none b ↔ a.similarity ≤ b.similarity := by
  simp only [rank, Option.map_none, Option.getD_none, Prod.Lex.toLex_le_toLex, le_refl, and_true]
  exact le_iff_lt_or_eq.symm

theorem scoreMatches_of_reaches (positive : 0 < size) (reaches : Reaches scorer size threshold xs) :
    ∃ i, BestWindow scorer size threshold xs i ∧
      (scoreMatches xs size threshold none scorer).head? = some (matchAt scorer size xs i) := by
  obtain ⟨first, inside, above⟩ := reaches
  rw [scoreMatches_eq positive (by omega)]
  have sorted : (((List.range (xs.length + 1 - size)).filter fun i => threshold ≤ scorer (window xs size i)).map
      (matchAt scorer size xs)).Pairwise fun a b => a.startLine < b.startLine := by
    rw [List.pairwise_map]
    apply (List.pairwise_lt_range.filter _).imp
    intro a b before
    exact Nat.succ_lt_succ before
  have nonempty : (((List.range (xs.length + 1 - size)).filter fun i => threshold ≤ scorer (window xs size i)).map
      (matchAt scorer size xs)) ≠ [] := by
    apply List.ne_nil_of_mem
    exact List.mem_map_of_mem (List.mem_filter.mpr ⟨List.mem_range.mpr inside, decide_eq_true above⟩)
  obtain ⟨best, isHead, isBest⟩ := @exists_firstBest _ _ _ _ _ (rank none) _ _ sorted nonempty
  obtain ⟨i, member, rfl⟩ := List.mem_map.mp isBest.member
  obtain ⟨inRange, reachesI⟩ := List.mem_filter.mp member
  have inRange := List.mem_range.mp inRange
  have reachesI := of_decide_eq_true reachesI
  have among : ∀ j < xs.length + 1 - size, threshold ≤ scorer (window xs size j) →
      matchAt scorer size xs j ∈ ((List.range (xs.length + 1 - size)).filter fun i =>
        threshold ≤ scorer (window xs size i)).map (matchAt scorer size xs) :=
    fun j inside above => List.mem_map_of_mem (List.mem_filter.mpr ⟨List.mem_range.mpr inside, decide_eq_true above⟩)
  refine ⟨i, ⟨by omega, reachesI, ?_, ?_⟩, isHead⟩
  · intro j before
    by_cases above : threshold ≤ scorer (window xs size j)
    · exact rank_lt_iff.mp (isBest.first _ (among j (by omega) above) (Nat.succ_lt_succ before))
    · exact lt_of_lt_of_le (not_le.mp above) reachesI
  · intro j inside
    by_cases above : threshold ≤ scorer (window xs size j)
    · exact rank_le_iff.mp (isBest.highest _ (among j inside above))
    · exact le_trans (not_le.mp above).le reachesI

theorem scoreMatches_of_not_reaches (misses : ¬Reaches scorer size threshold xs) :
    (scoreMatches xs size threshold none scorer).head? = none := by
  by_cases degenerate : size = 0 ∨ xs.length < size
  · unfold scoreMatches
    rw [if_pos degenerate]
    rfl
  · rw [not_or] at degenerate
    rw [scoreMatches_eq (Nat.pos_of_ne_zero degenerate.1) (Nat.le_of_not_lt degenerate.2)]
    rw [List.filter_eq_nil_iff.mpr]
    · rfl
    · intro j inside reaches
      exact misses ⟨j, List.mem_range.mp inside, of_decide_eq_true reaches⟩

end Score

section Tiers

variable {search : Str} {xs : List Str} {tiers : List (ℚ × Scorer)} {i j : ℕ}

/-- The best window of the first scorer that has a window above its threshold. -/
def FirstMatch (search : Str) (xs : List Str) (i : ℕ) : List (ℚ × Scorer) → Prop
  | [] => False
  | (threshold, factory) :: tiers =>
    BestWindow (factory search) (lines search).length threshold xs i ∨
      ¬Reaches (factory search) (lines search).length threshold xs ∧ FirstMatch search xs i tiers

instance decidableFirstMatch (search : Str) (xs : List Str) (i : ℕ) :
    (tiers : List (ℚ × Scorer)) → Decidable (FirstMatch search xs i tiers)
  | [] => isFalse id
  | (threshold, factory) :: tiers =>
    have := decidableFirstMatch search xs i tiers
    inferInstanceAs (Decidable (BestWindow (factory search) (lines search).length threshold xs i ∨
      ¬Reaches (factory search) (lines search).length threshold xs ∧ FirstMatch search xs i tiers))

theorem FirstMatch.inside (first : FirstMatch search xs i tiers) : i + (lines search).length ≤ xs.length := by
  induction tiers with
  | nil => cases first
  | cons tier tiers ih =>
    rcases first with best | ⟨-, later⟩
    · exact best.1
    · exact ih later

theorem FirstMatch.unique (first : FirstMatch search xs i tiers) (other : FirstMatch search xs j tiers) : i = j := by
  induction tiers with
  | nil => cases first
  | cons tier tiers ih =>
    rcases first with best | ⟨misses, later⟩ <;> rcases other with otherBest | ⟨otherMisses, otherLater⟩
    · exact best.unique otherBest
    · exact absurd best.reaches otherMisses
    · exact absurd otherBest.reaches misses
    · exact ih later otherLater

theorem matchTiers_spec (overflowChecks : Bool) (positive : 0 < (lines search).length) (tiers : List (ℚ × Scorer)) :
    (∃ i, FirstMatch search xs i tiers ∧
      matchTiers overflowChecks search xs tiers = some (some ⟨i + 1, i + (lines search).length + 1⟩)) ∨
    matchTiers overflowChecks search xs tiers = some none ∧ ∀ i, ¬FirstMatch search xs i tiers := by
  induction tiers with
  | nil => exact .inr ⟨rfl, fun i first => first⟩
  | cons tier tiers ih =>
    obtain ⟨threshold, factory⟩ := tier
    have matched : matchDiff overflowChecks search none xs threshold factory = some
        ((scoreMatches xs (lines search).length threshold none (factory search)).head?.map
          fun found => ⟨found.startLine, found.endLine⟩) := rfl
    rw [matchTiers, matched]
    by_cases reaches : Reaches (factory search) (lines search).length threshold xs
    · obtain ⟨i, best, isHead⟩ := scoreMatches_of_reaches positive reaches
      refine .inl ⟨i, .inl best, ?_⟩
      rw [isHead]
      rfl
    · rw [scoreMatches_of_not_reaches reaches]
      rcases ih with ⟨i, first, found⟩ | ⟨nothing, none⟩
      · exact .inl ⟨i, .inr ⟨reaches, first⟩, found⟩
      · refine .inr ⟨nothing, ?_⟩
        rintro i (best | ⟨-, later⟩)
        · exact reaches best.reaches
        · exact none i later

end Tiers

end Warp.Diff
