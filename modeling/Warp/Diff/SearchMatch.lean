import Warp.Diff.SearchReplace
import Warp.Diff.V4aWindow

namespace Warp.Diff

open Str List

theorem linesFrom_ne_nil {line s : Str} (some' : line ≠ [] ∨ s ≠ []) : linesFrom line s ≠ [] := by
  induction s generalizing line with
  | nil =>
    rw [linesFrom, if_neg (some'.resolve_right fun filled => filled rfl)]
    exact cons_ne_nil _ _
  | cons c s ih =>
    rw [linesFrom]
    split
    · exact cons_ne_nil _ _
    · exact ih (.inl (append_ne_nil_of_right_ne_nil _ (cons_ne_nil _ _)))

theorem length_lines_pos (s : Str) : 0 < (lines s).length := by
  unfold lines
  split
  · decide
  · rename_i some'
    exact length_pos_of_ne_nil (linesFrom_ne_nil (.inr some'))

section Near

variable {scorer : List Str → ℚ} {size : ℕ} {threshold : ℚ} {xs : List Str} {hint : Option Range} {lo hi i j : ℕ}

structure Candidate (scorer : List Str → ℚ) (size : ℕ) (threshold : ℚ) (xs : List Str) (lo hi i : ℕ) : Prop where
  after : lo ≤ i
  inside : i + size ≤ hi
  reaches : threshold ≤ scorer (window xs size i)

/-- The first of the candidates of the highest rank. -/
structure Nearest (scorer : List Str → ℚ) (size : ℕ) (threshold : ℚ) (xs : List Str) (hint : Option Range) (lo hi i : ℕ) :
    Prop where
  candidate : Candidate scorer size threshold xs lo hi i
  highest : ∀ j, Candidate scorer size threshold xs lo hi j →
    rank hint (matchAt scorer size xs j) ≤ rank hint (matchAt scorer size xs i)
  first : ∀ j < i, Candidate scorer size threshold xs lo hi j →
    rank hint (matchAt scorer size xs j) < rank hint (matchAt scorer size xs i)

theorem Nearest.unique (nearest : Nearest scorer size threshold xs hint lo hi i)
    (other : Nearest scorer size threshold xs hint lo hi j) : i = j := by
  rcases Nat.lt_trichotomy i j with before | same | after
  · exact absurd (nearest.highest j other.candidate) (not_le_of_gt (other.first i before nearest.candidate))
  · exact same
  · exact absurd (other.highest i nearest.candidate) (not_le_of_gt (nearest.first j after other.candidate))

theorem window_within (inside : lo + i + size ≤ hi) :
    window ((xs.take hi).drop lo) size i = window xs size (lo + i) := by
  unfold window
  rw [drop_drop, drop_take, take_take, Nat.min_eq_left (by omega)]

def shifted (lo : ℕ) (found : Match) : Match := ⟨found.startLine - lo, found.endLine - lo, found.similarity⟩

theorem rank_shifted {found : Match} (hinted : ∀ range ∈ hint, lo ≤ range.start) (after : lo ≤ found.startLine) :
    rank (hint.map fun range => ⟨range.start - lo, range.stop - lo⟩) (shifted lo found) = rank hint found := by
  cases hint with
  | none => rfl
  | some range =>
    have before := hinted range rfl
    have distance : found.startLine - lo - (range.start - lo) + (range.start - lo - (found.startLine - lo)) =
        found.startLine - range.start + (range.start - found.startLine) := by omega
    simp only [rank, shifted, Option.map_some, Option.getD_some, distance]

theorem scoreMatches_within (positive : 0 < size) (order : lo ≤ hi) (fits : hi ≤ xs.length)
    (hinted : ∀ range ∈ hint, lo ≤ range.start) :
    (∃ i, Nearest scorer size threshold xs hint lo hi i ∧
      (scoreMatches ((xs.take hi).drop lo) size threshold (hint.map fun range => ⟨range.start - lo, range.stop - lo⟩)
        scorer).head? = some (shifted lo (matchAt scorer size xs i))) ∨
    (∀ i, ¬ Candidate scorer size threshold xs lo hi i) ∧
      (scoreMatches ((xs.take hi).drop lo) size threshold (hint.map fun range => ⟨range.start - lo, range.stop - lo⟩)
        scorer).head? = none := by
  have length : ((xs.take hi).drop lo).length = hi - lo := by
    rw [length_drop, length_take, Nat.min_eq_left fits]
  unfold scoreMatches
  rw [length]
  by_cases short : hi - lo < size
  · rw [if_pos (.inr short)]
    exact .inr ⟨fun i candidate => by have := candidate.inside; have := candidate.after; omega, rfl⟩
  · rw [if_neg (by omega)]
    dsimp only
    let found := (List.range (hi - lo + 1 - size)).filterMap fun i =>
      if threshold ≤ scorer (window ((xs.take hi).drop lo) size i) then
        some (⟨i + 1, i + size + 1, scorer (window ((xs.take hi).drop lo) size i)⟩ : Match) else none
    have shift : ∀ i < hi - lo + 1 - size, shifted lo (matchAt scorer size xs (lo + i)) =
        ⟨i + 1, i + size + 1, scorer (window ((xs.take hi).drop lo) size i)⟩ := by
      intro i inside
      rw [window_within (show lo + i + size ≤ hi by omega)]
      simp only [shifted, matchAt, Match.mk.injEq, and_true]
      omega
    have isFound : ∀ i, Candidate scorer size threshold xs lo hi i → shifted lo (matchAt scorer size xs i) ∈ found := by
      intro i candidate
      obtain ⟨after, inside, reaches⟩ := candidate
      obtain ⟨k, rfl⟩ := Nat.exists_eq_add_of_le after
      have early : k < hi - lo + 1 - size := by omega
      refine List.mem_filterMap.mpr ⟨k, List.mem_range.mpr early, ?_⟩
      rw [shift k early, window_within inside, if_pos reaches]
    have fromFound : ∀ m ∈ found, ∃ i, Candidate scorer size threshold xs lo hi i ∧
        m = shifted lo (matchAt scorer size xs i) := by
      intro m member
      obtain ⟨i, inside, made⟩ := List.mem_filterMap.mp member
      have inside := List.mem_range.mp inside
      by_cases reaches : threshold ≤ scorer (window ((xs.take hi).drop lo) size i)
      · rw [if_pos reaches] at made
        refine ⟨lo + i, ⟨by omega, by omega, ?_⟩, ?_⟩
        · rwa [← window_within (show lo + i + size ≤ hi by omega)]
        · rw [shift i inside]
          exact (Option.some.inj made).symm
      · rw [if_neg reaches] at made
        cases made
    have sorted : found.Pairwise fun a b => a.startLine < b.startLine := by
      refine List.pairwise_lt_range.filterMap _ fun a b before m isA n isB => ?_
      have startsAt : ∀ i m, (if threshold ≤ scorer (window ((xs.take hi).drop lo) size i) then
          some (⟨i + 1, i + size + 1, scorer (window ((xs.take hi).drop lo) size i)⟩ : Match) else none) = some m →
          m.startLine = i + 1 := by
        intro i m made
        split at made
        · rw [← Option.some.inj made]
        · cases made
      rw [startsAt a m isA, startsAt b n isB]
      exact Nat.succ_lt_succ before
    have ranked : ∀ i, Candidate scorer size threshold xs lo hi i →
        rank (hint.map fun range => ⟨range.start - lo, range.stop - lo⟩) (shifted lo (matchAt scorer size xs i)) =
          rank hint (matchAt scorer size xs i) :=
      fun i candidate => rank_shifted hinted (Nat.le_succ_of_le candidate.after)
    by_cases nothing : found = []
    · refine .inr ⟨fun i candidate => ?_, ?_⟩
      · have member := isFound i candidate
        rw [nothing] at member
        cases member
      · show (found.insertionSort _).head? = none
        rw [nothing]
        rfl
    · obtain ⟨best, isHead, isBest⟩ := @exists_firstBest _ _ _ _ _
        (rank (hint.map fun range => ⟨range.start - lo, range.stop - lo⟩)) _ _ sorted nothing
      obtain ⟨i, candidate, rfl⟩ := fromFound best isBest.member
      refine .inl ⟨i, ⟨candidate, fun j other => ?_, fun j before other => ?_⟩, isHead⟩
      · rw [← ranked i candidate, ← ranked j other]
        exact isBest.highest _ (isFound j other)
      · rw [← ranked i candidate, ← ranked j other]
        refine isBest.first _ (isFound j other) ?_
        have := other.after
        simp only [shifted, matchAt]
        omega

theorem scoreMatches_whole (positive : 0 < size) :
    (∃ i, Nearest scorer size threshold xs hint 0 xs.length i ∧
      (scoreMatches xs size threshold hint scorer).head? = some (matchAt scorer size xs i)) ∨
    (∀ i, ¬ Candidate scorer size threshold xs 0 xs.length i) ∧ (scoreMatches xs size threshold hint scorer).head? = none := by
  have within := @scoreMatches_within scorer size threshold xs hint 0 xs.length positive (Nat.zero_le _) (Nat.le_refl _)
    fun _ _ => Nat.zero_le _
  have unshifted : (hint.map fun range => ⟨range.start - 0, range.stop - 0⟩) = hint := Option.map_id'
  rw [unshifted, drop_zero, take_length] at within
  exact within

end Near

section MatchDiff

variable {search : Str} {factory : Scorer} {threshold : ℚ} {lineRange : Option Range} {targetLines : List Str} {i j : ℕ}

def Found (search : Str) (targetLines : List Str) (threshold : ℚ) (factory : Scorer) : Prop :=
  ∃ i, Candidate (factory search) (lines search).length threshold targetLines 0 targetLines.length i

def aroundStart (range : Range) : ℕ := range.start - 2

def aroundStop (targetLines : List Str) (range : Range) : ℕ := min (range.stop + 2) targetLines.length

/-- The place of a match: the nearest around the hint, and where there is none around it, the nearest of all. -/
def Located (search : Str) (targetLines : List Str) (threshold : ℚ) (factory : Scorer) (i : ℕ) : Option Range → Prop
  | none => Nearest (factory search) (lines search).length threshold targetLines none 0 targetLines.length i
  | some range =>
    Nearest (factory search) (lines search).length threshold targetLines (some range) (aroundStart range)
        (aroundStop targetLines range) i ∨
      (∀ j, ¬ Candidate (factory search) (lines search).length threshold targetLines (aroundStart range)
        (aroundStop targetLines range) j) ∧
        Nearest (factory search) (lines search).length threshold targetLines (some range) 0 targetLines.length i

theorem aroundStop_le (range : Range) : aroundStop targetLines range ≤ targetLines.length := Nat.min_le_right _ _

theorem Located.candidate (located : Located search targetLines threshold factory i lineRange) :
    Candidate (factory search) (lines search).length threshold targetLines 0 targetLines.length i := by
  cases lineRange with
  | none => exact Nearest.candidate located
  | some range =>
    rcases located with around | ⟨-, anywhere⟩
    · obtain ⟨-, inside, reaches⟩ := around.candidate
      exact ⟨Nat.zero_le i, Nat.le_trans inside (aroundStop_le range), reaches⟩
    · exact anywhere.candidate

theorem Located.unique (located : Located search targetLines threshold factory i lineRange)
    (other : Located search targetLines threshold factory j lineRange) : i = j := by
  cases lineRange with
  | none => exact Nearest.unique located other
  | some range =>
    rcases located with around | ⟨nowhere, anywhere⟩ <;> rcases other with otherAround | ⟨otherNowhere, otherAnywhere⟩
    · exact around.unique otherAround
    · exact absurd around.candidate (otherNowhere i)
    · exact absurd otherAround.candidate (nowhere j)
    · exact anywhere.unique otherAnywhere

theorem matchDiff_spec (overflowChecks : Bool) (hinted : ∀ range ∈ lineRange, inFile targetLines range = true) :
    (∃ i, Located search targetLines threshold factory i lineRange ∧
      matchDiff overflowChecks search lineRange targetLines threshold factory =
        some (some ⟨i + 1, i + (lines search).length + 1⟩)) ∨
    ¬ Found search targetLines threshold factory ∧
      matchDiff overflowChecks search lineRange targetLines threshold factory = some none := by
  have positive := length_lines_pos search
  have whole := @scoreMatches_whole (factory search) (lines search).length threshold targetLines lineRange positive
  cases lineRange with
  | none =>
    have unfolded : matchDiff overflowChecks search none targetLines threshold factory =
        some ((scoreMatches targetLines (lines search).length threshold none (factory search)).head?.map fun found =>
          ⟨found.startLine, found.endLine⟩) := rfl
    rw [unfolded]
    rcases whole with ⟨i, nearest, isHead⟩ | ⟨nowhere, isHead⟩
    · exact .inl ⟨i, nearest, by rw [isHead]; rfl⟩
    · exact .inr ⟨fun ⟨i, candidate⟩ => nowhere i candidate, by rw [isHead]; rfl⟩
  | some range =>
    have inside := hinted range rfl
    simp only [inFile, Bool.and_eq_true, decide_eq_true_eq] at inside
    have order : aroundStart range ≤ aroundStop targetLines range := by
      unfold aroundStart aroundStop
      omega
    have unfolded : matchDiff overflowChecks search (some range) targetLines threshold factory =
        match (scoreMatches ((targetLines.take (aroundStop targetLines range)).drop (aroundStart range)) (lines search).length
            threshold (some ⟨range.start - aroundStart range, range.stop - aroundStart range⟩) (factory search)).head? with
        | some found => some (some ⟨found.startLine + aroundStart range, found.endLine + aroundStart range⟩)
        | none =>
          some ((scoreMatches targetLines (lines search).length threshold (some range) (factory search)).head?.map fun found =>
            ⟨found.startLine, found.endLine⟩) := by
      have noWrap : ¬ (overflowChecks && decide (range.stop < aroundStart range)) = true := by
        rw [Bool.and_eq_true, decide_eq_true_eq]
        unfold aroundStart
        omega
      unfold aroundStart aroundStop at *
      simp only [matchDiff, if_pos order, if_neg noWrap]
      generalize (scoreMatches _ _ _ (some ⟨range.start - _, range.stop - _⟩) _).head? = around
      cases around <;> rfl
    have around := @scoreMatches_within (factory search) (lines search).length threshold targetLines (some range)
      (aroundStart range) (aroundStop targetLines range) positive order (aroundStop_le range) fun other isHint => by
        rw [← Option.some.inj isHint]
        exact Nat.sub_le _ _
    rw [unfolded]
    rcases around with ⟨i, nearest, isHead⟩ | ⟨nowhere, isHead⟩
    · refine .inl ⟨i, .inl nearest, ?_⟩
      have after := nearest.candidate.after
      rw [show (scoreMatches _ _ _ (some ⟨range.start - aroundStart range, range.stop - aroundStart range⟩) _).head? = _ from isHead]
      simp only [shifted, matchAt, Option.some.injEq, Range.mk.injEq]
      omega
    · rw [show (scoreMatches _ _ _ (some ⟨range.start - aroundStart range, range.stop - aroundStart range⟩) _).head? = _ from isHead]
      rcases whole with ⟨i, nearest, isHead⟩ | ⟨none', isHead⟩
      · exact .inl ⟨i, .inr ⟨nowhere, nearest⟩, by rw [isHead]; rfl⟩
      · exact .inr ⟨fun ⟨i, candidate⟩ => none' i candidate, by rw [isHead]; rfl⟩

/-- The place of the match by the first scorer that has one. -/
def MatchedBy (search : Str) (lineRange : Option Range) (targetLines : List Str) (i : ℕ) : List (ℚ × Scorer) → Prop
  | [] => False
  | (threshold, factory) :: tiers =>
    Located search targetLines threshold factory i lineRange ∨
      ¬ Found search targetLines threshold factory ∧ MatchedBy search lineRange targetLines i tiers

variable {tiers : List (ℚ × Scorer)}

theorem MatchedBy.candidate (matched : MatchedBy search lineRange targetLines i tiers) :
    i + (lines search).length ≤ targetLines.length := by
  induction tiers with
  | nil => exact matched.elim
  | cons tier tiers ih =>
    rcases matched with located | ⟨-, later⟩
    · exact located.candidate.inside
    · exact ih later

theorem Located.found (located : Located search targetLines threshold factory i lineRange) :
    Found search targetLines threshold factory := ⟨i, located.candidate⟩

theorem MatchedBy.unique (matched : MatchedBy search lineRange targetLines i tiers)
    (other : MatchedBy search lineRange targetLines j tiers) : i = j := by
  induction tiers with
  | nil => exact matched.elim
  | cons tier tiers ih =>
    rcases matched with located | ⟨misses, later⟩ <;> rcases other with otherLocated | ⟨otherMisses, otherLater⟩
    · exact located.unique otherLocated
    · exact absurd located.found otherMisses
    · exact absurd otherLocated.found misses
    · exact ih later otherLater

theorem matchSearch_spec (overflowChecks : Bool) (hinted : ∀ range ∈ lineRange, inFile targetLines range = true)
    (tiers : List (ℚ × Scorer)) :
    (∃ i, MatchedBy search lineRange targetLines i tiers ∧
      matchSearch overflowChecks search lineRange targetLines tiers = some (some ⟨i + 1, i + (lines search).length + 1⟩)) ∨
    (∀ tier ∈ tiers, ¬ Found search targetLines tier.1 tier.2) ∧
      matchSearch overflowChecks search lineRange targetLines tiers = some none := by
  induction tiers with
  | nil => exact .inr ⟨fun tier member => absurd member not_mem_nil, rfl⟩
  | cons tier tiers ih =>
    obtain ⟨threshold, factory⟩ := tier
    rcases matchDiff_spec overflowChecks hinted with ⟨i, located, isMatch⟩ | ⟨misses, isMatch⟩
    · refine .inl ⟨i, .inl located, ?_⟩
      rw [matchSearch, isMatch]
      rfl
    · have unfolded : matchSearch overflowChecks search lineRange targetLines ((threshold, factory) :: tiers) =
          matchSearch overflowChecks search lineRange targetLines tiers := by
        rw [matchSearch, isMatch]
        rfl
      rw [unfolded]
      rcases ih with ⟨i, matched, isMatch⟩ | ⟨none', isMatch⟩
      · exact .inl ⟨i, .inr ⟨misses, matched⟩, isMatch⟩
      · exact .inr ⟨List.forall_mem_cons.mpr ⟨misses, none'⟩, isMatch⟩

end MatchDiff

end Warp.Diff
