import Warp.Lib.Intervals

namespace Warp.Editor

open List

structure OverlapRange (T : Type) where
  indices : List ℕ
  start : T
  stop : T

structure Overlaps (T : Type) where
  ranges : List (Interval T)
  indices : List ℕ
  current : Option (OverlapRange T)

namespace Overlaps

variable {T : Type} [LinearOrder T]

def close (self : Overlaps T) (overlap : OverlapRange T) : Overlaps T :=
  if 1 < overlap.indices.length then
    { self with ranges := self.ranges ++ [⟨overlap.start, overlap.stop⟩], indices := self.indices ++ overlap.indices }
  else self

def step (self : Overlaps T) (entry : Interval T × ℕ) : Overlaps T :=
  let (range, i) := entry
  match self.current with
  | none => { self with current := some ⟨[i], range.start, range.stop⟩ }
  | some overlap =>
    if range.start ≤ overlap.stop then
      { self with current := some ⟨overlap.indices ++ [i], overlap.start, max range.stop overlap.stop⟩ }
    else { self.close overlap with current := some ⟨[i], range.start, range.stop⟩ }

def finish (self : Overlaps T) : Overlaps T :=
  match self.current with
  | some overlap => self.close overlap
  | none => self

end Overlaps

section Ranges

variable {T : Type} [LinearOrder T]

def sortByStart (ranges : List (Interval T)) : List (Interval T) := ranges.mergeSort fun a b => a.start ≤ b.start

def overlappingRanges (ranges : List (Interval T)) : List ℕ × List (Interval T) :=
  let found := ((sortByStart ranges).zipIdx.foldl Overlaps.step ⟨[], [], none⟩).finish
  (found.indices, found.ranges)

end Ranges

structure Selection where
  head : ℕ
  tail : ℕ
deriving DecidableEq

namespace Selection

def toOffsetRange (self : Selection) : Interval ℕ :=
  if self.tail ≤ self.head then ⟨self.tail, self.head⟩ else ⟨self.head, self.tail⟩

end Selection

def createSelection (forwards : Bool) (range : Interval ℕ) : Selection :=
  if forwards then ⟨range.stop, range.start⟩ else ⟨range.start, range.stop⟩

def keptSelections (indices : List ℕ) (selections : List Selection) : List Selection :=
  (selections.zipIdx.filter fun (_, i) => !indices.contains i).map Prod.fst

/-- Whether one of the selections at the indices has its head after its tail. -/
def forwardsSelection (indices : List ℕ) (selections : List Selection) : Bool :=
  selections.zipIdx.any fun (selection, i) => indices.contains i && selection.tail < selection.head

def mergeOverlappingSelections (selections : List Selection) : List Selection :=
  let (overlapIndices, newRanges) := overlappingRanges (selections.map Selection.toOffsetRange)
  if overlapIndices.isEmpty then selections
  else
    let newSelections := keptSelections overlapIndices selections ++
      newRanges.map (createSelection (forwardsSelection overlapIndices selections))
    -- An empty set of selections is not taken.
    if newSelections.isEmpty then selections else newSelections

/-- The selections that remain do not touch, cover the positions and the characters of the given ones, and are those of them
that overlapped none of the others. -/
structure Merged (before after : List Selection) : Prop where
  apart : after.Pairwise fun a b => ¬ a.toOffsetRange.Touches b.toOffsetRange
  positions : ∀ p, (∃ s ∈ after, s.toOffsetRange.start ≤ p ∧ p ≤ s.toOffsetRange.stop) ↔
    ∃ s ∈ before, s.toOffsetRange.start ≤ p ∧ p ≤ s.toOffsetRange.stop
  characters : ∀ p, (∃ s ∈ after, s.toOffsetRange.start ≤ p ∧ p < s.toOffsetRange.stop) ↔
    ∃ s ∈ before, s.toOffsetRange.start ≤ p ∧ p < s.toOffsetRange.stop
  alone : ∀ i s, before[i]? = some s → ¬ Interval.OverlapsAt (before.map Selection.toOffsetRange) i → s ∈ after

def SortsInPlace (ranges : List (Interval ℕ)) : Prop :=
  ∀ i, Interval.OverlapsAt (sortByStart ranges) i ↔ Interval.OverlapsAt ranges i

section Groups

open Interval (Clusters OverlapsAt)

variable {T : Type} [LinearOrder T] {xs ranges : List (Interval T)} {groups : List (List (Interval T) × Interval T)}
  {members : List (Interval T)} {whole r : Interval T} {found : Overlaps T} {i n : ℕ}

def grouped (n : ℕ) : List (List (Interval T) × Interval T) → List ℕ
  | [] => []
  | group :: groups =>
    (if 1 < group.1.length then List.range' n group.1.length else []) ++ grouped (n + group.1.length) groups

def merged (groups : List (List (Interval T) × Interval T)) : List (Interval T) :=
  (groups.filter fun group => 1 < group.1.length).map Prod.snd

omit [LinearOrder T] in
theorem grouped_append (others : List (List (Interval T) × Interval T)) :
    grouped n (groups ++ others) = grouped n groups ++ grouped (n + (groups.flatMap Prod.fst).length) others := by
  induction groups generalizing n with
  | nil => rfl
  | cons group groups ih =>
    rw [cons_append, grouped, grouped, ih, flatMap_cons, length_append, append_assoc, Nat.add_assoc]

omit [LinearOrder T] in
theorem mem_grouped {crowded : Interval T → Prop}
    (same : ∀ group ∈ groups, ∀ a ∈ group.1, (crowded a ↔ 1 < group.1.length)) :
    i ∈ grouped n groups ↔ n ≤ i ∧ ∃ a, (groups.flatMap Prod.fst)[i - n]? = some a ∧ crowded a := by
  induction groups generalizing n with
  | nil => simp [grouped]
  | cons group groups ih =>
    have rest := @ih (n + group.1.length) fun other member => same other (mem_cons_of_mem _ member)
    have here := same group mem_cons_self
    rw [grouped, mem_append, rest, flatMap_cons]
    by_cases inside : i - n < group.1.length
    · rw [List.getElem?_append_left inside]
      have later : ¬ (n + group.1.length ≤ i ∧ ∃ a, (groups.flatMap Prod.fst)[i - (n + group.1.length)]? = some a ∧ crowded a) :=
        fun h => by omega
      rw [or_iff_left later]
      constructor
      · intro member
        split at member
        next many =>
          rw [mem_range'_1] at member
          exact ⟨member.1, _, List.getElem?_eq_getElem inside, (here _ (getElem_mem inside)).mpr many⟩
        next => cases member
      · rintro ⟨le, a, found, isCrowded⟩
        rw [if_pos ((here a (mem_of_getElem? found)).mp isCrowded), mem_range'_1]
        omega
    · rw [List.getElem?_append_right (by omega), Nat.sub_sub]
      have before : i ∉ if 1 < group.1.length then List.range' n group.1.length else [] := by
        split
        · rw [mem_range'_1]
          omega
        · exact not_mem_nil
      rw [or_iff_right before]
      constructor
      · rintro ⟨le, rest⟩
        exact ⟨by omega, rest⟩
      · rintro ⟨le, a, found, isCrowded⟩
        by_cases empty : group.1.length = 0
        · exact ⟨by omega, a, found, isCrowded⟩
        · exact ⟨by omega, a, found, isCrowded⟩

/-- What the loop found in the ranges before the current one's group, and the group itself. -/
structure Overlaps.Holds (found : Overlaps T) (xs : List (Interval T)) (groups : List (List (Interval T) × Interval T))
    (members : List (Interval T)) (whole : Interval T) : Prop where
  clusters : Clusters xs (groups ++ [(members, whole)])
  ranges : found.ranges = merged groups
  indices : found.indices = grouped 0 groups
  current : found.current =
    some ⟨List.range' (groups.flatMap Prod.fst).length members.length, whole.start, whole.stop⟩

namespace Overlaps.Holds

section

variable (holds : found.Holds xs groups members whole)
include holds

theorem length :
    xs.length = (groups.flatMap Prod.fst).length + members.length := by
  rw [holds.clusters.flat, flatMap_append, length_append]
  simp

theorem close :
    let closed := found.close ⟨List.range' (groups.flatMap Prod.fst).length members.length, whole.start, whole.stop⟩
    closed.ranges = merged (groups ++ [(members, whole)]) ∧ closed.indices = grouped 0 (groups ++ [(members, whole)]) := by
  unfold Overlaps.close merged
  simp only [length_range', grouped_append, grouped, filter_append, map_append, append_nil, Nat.zero_add]
  by_cases many : 1 < members.length
  · simp [many, holds.ranges, holds.indices, merged]
  · simp [many, holds.ranges, holds.indices, merged]

theorem step (valid : r.Valid) (ordered : ∀ a ∈ xs, a.start ≤ r.start) :
    ∃ groups members whole, (found.step (r, xs.length)).Holds (xs ++ [r]) groups members whole := by
  have length := holds.length
  have closed := holds.close
  simp only [Overlaps.step, holds.current]
  by_cases near : r.start ≤ whole.stop
  · rw [if_pos near]
    refine ⟨groups, members ++ [r], whole.extend r, holds.clusters.join valid ordered near, holds.ranges, holds.indices, ?_⟩
    simp only [length_append, length_singleton, List.range'_concat, Nat.one_mul, Interval.extend, length,
      max_comm whole.stop]
  · rw [if_neg near]
    refine ⟨groups ++ [(members, whole)], [r], r, holds.clusters.new valid fun group member => ?_, closed.1, closed.2, ?_⟩
    · rcases List.mem_append.mp member with old | new
      · have apart := (List.pairwise_append.mp holds.clusters.apart).2.2 group old (members, whole) (mem_singleton_self _)
        have cluster := holds.clusters.cluster (members, whole) (mem_append_right _ (mem_singleton_self _))
        exact apart.trans (lt_of_le_of_lt cluster.valid (lt_of_not_ge near))
      · obtain rfl := List.mem_singleton.mp new
        exact lt_of_not_ge near
    · simp [length]

end

theorem foldl (holds : found.Holds xs groups members whole) {rest : List (Interval T)} (valid : ∀ r ∈ rest, r.Valid)
    (ordered : (xs ++ rest).Pairwise fun a b => a.start ≤ b.start) :
    ∃ groups members whole,
      ((rest.zipIdx xs.length).foldl Overlaps.step found).Holds (xs ++ rest) groups members whole := by
  induction rest generalizing found xs groups members whole with
  | nil =>
    rw [append_nil]
    exact ⟨groups, members, whole, holds⟩
  | cons r rest ih =>
    have before : ∀ a ∈ xs, a.start ≤ r.start := fun a member =>
      (List.pairwise_append.mp ordered).2.2 a member r mem_cons_self
    obtain ⟨groups', members', whole', stepped⟩ := holds.step (valid r mem_cons_self) before
    have rest := ih stepped (fun r member => valid r (mem_cons_of_mem _ member)) (by simpa using ordered)
    rw [length_append, length_singleton, append_assoc] at rest
    exact rest

end Overlaps.Holds

theorem sortByStart_perm (ranges : List (Interval T)) : (sortByStart ranges).Perm ranges := mergeSort_perm _ _

theorem sortByStart_pairwise (ranges : List (Interval T)) :
    (sortByStart ranges).Pairwise fun a b => a.start ≤ b.start := by
  have ascending := @List.pairwise_mergeSort _ (fun (a b : Interval T) => decide (a.start ≤ b.start))
    (fun a b c => by simpa using le_trans) (fun a b => by simpa using le_total a.start b.start) ranges
  exact ascending.imp of_decide_eq_true

theorem overlappingRanges_spec (valid : ∀ r ∈ ranges, r.Valid) :
    ∃ groups, Clusters (sortByStart ranges) groups ∧ overlappingRanges ranges = (grouped 0 groups, merged groups) := by
  have sorted := sortByStart_pairwise ranges
  have valid' : ∀ r ∈ sortByStart ranges, r.Valid := fun r member => valid r ((sortByStart_perm ranges).mem_iff.mp member)
  unfold overlappingRanges
  cases xs : sortByStart ranges with
  | nil => exact ⟨[], .nil, rfl⟩
  | cons r rest =>
    rw [xs] at sorted valid'
    have first : (Overlaps.step ⟨[], [], none⟩ (r, 0)).Holds [r] [] [r] r :=
      ⟨Interval.Clusters.nil.new (valid' r mem_cons_self) nofun, rfl, rfl, rfl⟩
    obtain ⟨groups, members, whole, holds⟩ :=
      first.foldl (fun r member => valid' r (mem_cons_of_mem _ member)) sorted
    refine ⟨groups ++ [(members, whole)], holds.clusters, ?_⟩
    have closed := holds.close
    have current := holds.current
    simp only [zipIdx_cons, foldl_cons]
    rw [length_singleton] at current closed
    simp only [Overlaps.finish, Nat.zero_add, current]
    exact Prod.ext closed.2 closed.1

theorem mem_overlappingRanges (valid : ∀ r ∈ ranges, r.Valid) :
    i ∈ (overlappingRanges ranges).1 ↔ OverlapsAt (sortByStart ranges) i := by
  obtain ⟨groups, clusters, found⟩ := overlappingRanges_spec valid
  rw [found, Interval.overlapsAt_iff fun a => clusters.valid,
    mem_grouped fun group isGroup a member => clusters.one_lt_countP_iff isGroup member, ← clusters.flat]
  simp

end Groups

section Merge

open Interval (Clusters OverlapsAt)

variable {selections : List Selection} {s : Selection} {i : ℕ}

theorem Selection.valid (self : Selection) : self.toOffsetRange.Valid := by
  unfold toOffsetRange Interval.Valid
  split
  · assumption
  · simp only
    omega

theorem createSelection_range {range : Interval ℕ} (valid : range.Valid) (forwards : Bool) :
    (createSelection forwards range).toOffsetRange = range := by
  cases forwards with
  | true => exact if_pos valid
  | false =>
    obtain ⟨start, stop⟩ := range
    simp only [createSelection, Bool.false_eq_true, if_false, Selection.toOffsetRange]
    split
    next reversed =>
      obtain rfl : start = stop := Nat.le_antisymm valid reversed
      rfl
    next => rfl

theorem ranges_valid : ∀ r ∈ selections.map Selection.toOffsetRange, r.Valid := by
  intro r member
  obtain ⟨s, -, rfl⟩ := List.mem_map.mp member
  exact s.valid

theorem range_at (found : selections[i]? = some s) : (selections.map Selection.toOffsetRange)[i]? = some s.toOffsetRange := by
  rw [List.getElem?_map, found]
  rfl

variable {indices : List ℕ} {groups : List (List (Interval ℕ) × Interval ℕ)}

theorem mem_keptSelections :
    s ∈ keptSelections indices selections ↔ ∃ i, selections[i]? = some s ∧ i ∉ indices := by
  unfold keptSelections
  rw [List.mem_map]
  constructor
  · rintro ⟨⟨s, i⟩, member, rfl⟩
    obtain ⟨found, outside⟩ := List.mem_filter.mp member
    exact ⟨i, List.mem_zipIdx_iff_getElem?.mp found, by simpa using outside⟩
  · rintro ⟨i, found, outside⟩
    exact ⟨(s, i), List.mem_filter.mpr ⟨List.mem_zipIdx_iff_getElem?.mpr found, by simpa using outside⟩, rfl⟩

theorem keptSelections_apart (alone : ∀ i, i ∉ indices → ¬ OverlapsAt (selections.map Selection.toOffsetRange) i) :
    (keptSelections indices selections).Pairwise fun a b => ¬ a.toOffsetRange.Touches b.toOffsetRange := by
  have ascending : selections.zipIdx.Pairwise fun a b => a.2 < b.2 := by
    apply List.pairwise_map.mp
    rw [zipIdx_map_snd]
    exact pairwise_lt_range'
  apply List.pairwise_map.mpr
  apply (ascending.filter _).imp_of_mem
  rintro ⟨a, i⟩ ⟨b, j⟩ inA inB lt touches
  obtain ⟨foundA, outside⟩ := List.mem_filter.mp inA
  have foundB := (List.mem_filter.mp inB).1
  apply alone i (by simpa using outside)
  exact ⟨j, _, _, by simp only at lt; omega, range_at (List.mem_zipIdx_iff_getElem?.mp foundA),
    range_at (List.mem_zipIdx_iff_getElem?.mp foundB), touches⟩

theorem merged_eq_nil {n : ℕ} (none : grouped n groups = []) :
    merged groups = [] := by
  induction groups generalizing n with
  | nil => rfl
  | cons group groups ih =>
    rw [grouped, append_eq_nil_iff] at none
    have single : ¬ 1 < group.1.length := by
      intro many
      rw [if_pos many, List.range'_eq_nil_iff] at none
      omega
    unfold merged
    rw [filter_cons_of_neg (by simpa using single)]
    exact ih none.2

theorem merged_ne_nil {n : ℕ} (some : grouped n groups ≠ []) :
    merged groups ≠ [] := by
  intro none
  apply some
  induction groups generalizing n with
  | nil => rfl
  | cons group groups ih =>
    have single : ¬ 1 < group.1.length := by
      intro many
      unfold merged at none
      rw [filter_cons_of_pos (by simpa using many)] at none
      cases none
    unfold merged at none
    rw [filter_cons_of_neg (by simpa using single)] at none
    rw [grouped, if_neg single, nil_append]
    by_contra some'
    exact some' (ih some' none)

theorem mergeOverlappingSelections_spec (selections : List Selection) :
    ∃ groups indices created, Clusters (sortByStart (selections.map Selection.toOffsetRange)) groups ∧
      (∀ i, i ∈ indices ↔ OverlapsAt (sortByStart (selections.map Selection.toOffsetRange)) i) ∧
      mergeOverlappingSelections selections = keptSelections indices selections ++ created ∧
      created.map Selection.toOffsetRange = merged groups := by
  have valid := @ranges_valid selections
  obtain ⟨groups, clusters, found⟩ := overlappingRanges_spec valid
  have mem : ∀ i, i ∈ grouped 0 groups ↔ OverlapsAt (sortByStart (selections.map Selection.toOffsetRange)) i := by
    intro i
    rw [← mem_overlappingRanges valid, found]
  unfold mergeOverlappingSelections
  simp only [found]
  by_cases none : grouped 0 groups = []
  · refine ⟨groups, grouped 0 groups, [], clusters, mem, ?_, (merged_eq_nil none).symm⟩
    rw [none, keptSelections]
    simp
  · refine ⟨groups, grouped 0 groups, (merged groups).map
      (createSelection (forwardsSelection (grouped 0 groups) selections)), clusters, mem, ?_, ?_⟩
    · rw [if_neg (by simpa using none), if_neg (by simpa using fun _ => merged_ne_nil none)]
    · rw [List.map_map]
      conv_rhs => rw [← List.map_id (merged groups)]
      apply map_congr_left
      intro range isMerged
      obtain ⟨group, isGroup, rfl⟩ := List.mem_map.mp isMerged
      exact createSelection_range (clusters.cluster group (List.mem_filter.mp isGroup).1).valid _

theorem covered_iff {created : List Selection}
    (clusters : Clusters (sortByStart (selections.map Selection.toOffsetRange)) groups)
    (mem : ∀ i, i ∈ indices ↔ OverlapsAt (selections.map Selection.toOffsetRange) i)
    (ranges : created.map Selection.toOffsetRange = merged groups) (inside : Interval ℕ → Prop)
    (whole : ∀ group ∈ groups, (inside group.2 ↔ ∃ a ∈ group.1, inside a)) :
    (∃ s ∈ keptSelections indices selections ++ created, inside s.toOffsetRange) ↔
      ∃ s ∈ selections, inside s.toOffsetRange := by
  have sorted := sortByStart_perm (selections.map Selection.toOffsetRange)
  constructor
  · rintro ⟨s, member, holds⟩
    rcases List.mem_append.mp member with kept | new
    · obtain ⟨i, found, -⟩ := mem_keptSelections.mp kept
      exact ⟨s, mem_of_getElem? found, holds⟩
    · have isMerged : s.toOffsetRange ∈ merged groups := ranges ▸ List.mem_map_of_mem new
      obtain ⟨group, isGroup, same⟩ := List.mem_map.mp isMerged
      have isGroup := (List.mem_filter.mp isGroup).1
      obtain ⟨a, inGroup, holds⟩ := (whole group isGroup).mp (same ▸ holds)
      obtain ⟨t, isSelection, rfl⟩ := List.mem_map.mp (sorted.mem_iff.mp (clusters.mem_iff.mpr ⟨group, isGroup, inGroup⟩))
      exact ⟨t, isSelection, holds⟩
  · rintro ⟨s, member, holds⟩
    obtain ⟨i, found⟩ := mem_iff_getElem?.mp member
    by_cases overlaps : OverlapsAt (selections.map Selection.toOffsetRange) i
    · obtain ⟨a, at_, several⟩ := (Interval.overlapsAt_iff ranges_valid).mp overlaps
      rw [range_at found, Option.some.injEq] at at_
      subst at_
      obtain ⟨group, isGroup, inGroup⟩ := clusters.mem_iff.mp (sorted.mem_iff.mpr (List.mem_map_of_mem member))
      rw [← sorted.countP_eq, clusters.one_lt_countP_iff isGroup inGroup] at several
      have isMerged : group.2 ∈ merged groups :=
        List.mem_map_of_mem (List.mem_filter.mpr ⟨isGroup, decide_eq_true several⟩)
      rw [← ranges] at isMerged
      obtain ⟨t, isNew, same⟩ := List.mem_map.mp isMerged
      exact ⟨t, mem_append_right _ isNew, same ▸ (whole group isGroup).mpr ⟨_, inGroup, holds⟩⟩
    · exact ⟨s, mem_append_left _ (mem_keptSelections.mpr ⟨i, found, fun h => overlaps ((mem i).mp h)⟩), holds⟩

theorem kept_apart (clusters : Clusters (sortByStart (selections.map Selection.toOffsetRange)) groups)
    (found : selections[i]? = some s) (alone : ¬ OverlapsAt (selections.map Selection.toOffsetRange) i)
    {range : Interval ℕ} (isMerged : range ∈ merged groups) :
    ¬ s.toOffsetRange.Touches range := by
  intro touches
  have sorted := sortByStart_perm (selections.map Selection.toOffsetRange)
  obtain ⟨group, inGroups, rfl⟩ := List.mem_map.mp isMerged
  obtain ⟨isGroup, many⟩ := List.mem_filter.mp inGroups
  obtain ⟨own, isOwn, inOwn⟩ := clusters.mem_iff.mp
    (sorted.mem_iff.mpr (List.mem_map_of_mem (mem_of_getElem? found)))
  obtain ⟨a, inGroup, touches⟩ := (clusters.cluster group isGroup).exists_touching s.valid touches
  obtain rfl := clusters.touches_of_members isOwn isGroup inOwn inGroup touches
  have several := (clusters.one_lt_countP_iff isOwn inOwn).mpr (of_decide_eq_true many)
  rw [sorted.countP_eq] at several
  exact alone ((Interval.overlapsAt_iff ranges_valid).mpr ⟨_, range_at found, several⟩)

theorem merged_of_sortsInPlace (same : SortsInPlace (selections.map Selection.toOffsetRange)) :
    Merged selections (mergeOverlappingSelections selections) := by
  obtain ⟨groups, indices, created, clusters, mem, result, ranges⟩ := mergeOverlappingSelections_spec selections
  have mem' : ∀ i, i ∈ indices ↔ OverlapsAt (selections.map Selection.toOffsetRange) i := fun i => (mem i).trans (same i)
  rw [result]
  refine ⟨?_, fun p => ?_, fun p => ?_, fun i s found alone => ?_⟩
  · rw [pairwise_append]
    refine ⟨keptSelections_apart fun i outside overlaps => outside ((mem' i).mpr overlaps), ?_, ?_⟩
    · have apart : (merged groups).Pairwise fun a b => ¬ a.Touches b := by
        apply List.pairwise_map.mpr
        exact (clusters.apart.filter _).imp fun lt touches => absurd touches.2 (by omega)
      rw [← ranges, pairwise_map] at apart
      exact apart
    · intro s kept t new
      obtain ⟨i, found, outside⟩ := mem_keptSelections.mp kept
      exact kept_apart clusters found (fun overlaps => outside ((mem' i).mpr overlaps))
        (ranges ▸ List.mem_map_of_mem new)
  · apply covered_iff clusters mem' ranges fun a => a.start ≤ p ∧ p ≤ a.stop
    intro group isGroup
    have cluster := clusters.cluster group isGroup
    constructor
    · rintro ⟨low, high⟩
      exact cluster.exists_position low high
    · rintro ⟨a, inGroup, low, high⟩
      have inside := cluster.inside inGroup
      exact ⟨inside.2.1.trans low, high.trans inside.2.2⟩
  · apply covered_iff clusters mem' ranges fun a => a.start ≤ p ∧ p < a.stop
    intro group isGroup
    have cluster := clusters.cluster group isGroup
    constructor
    · rintro ⟨low, high⟩
      exact cluster.exists_character low high
    · rintro ⟨a, inGroup, low, high⟩
      have inside := cluster.inside inGroup
      exact ⟨inside.2.1.trans low, high.trans_le inside.2.2⟩
  · exact mem_append_left _ (mem_keptSelections.mpr ⟨i, found, fun inside => alone ((mem' i).mp inside)⟩)

theorem countP_same_of_imp {α : Type} {p : α → Bool} {xs ys : List α} (length : xs.length = ys.length)
    (imp : ∀ (i : ℕ) a b, xs[i]? = some a → ys[i]? = some b → p a → p b) :
    xs.countP p ≤ ys.countP p ∧
      (xs.countP p = ys.countP p → ∀ (i : ℕ) a b, xs[i]? = some a → ys[i]? = some b → p b → p a) := by
  induction xs generalizing ys with
  | nil => exact ⟨Nat.zero_le _, fun _ i a b found => by cases found⟩
  | cons x xs ih =>
    cases ys with
    | nil => cases length
    | cons y ys =>
      have first := imp 0 x y rfl rfl
      obtain ⟨le, same⟩ := ih (Nat.succ.inj length) fun i a b => imp (i + 1) a b
      rw [countP_cons, countP_cons]
      have heads : (if p x then 1 else 0) ≤ if p y then 1 else 0 := by
        by_cases px : p x
        · rw [if_pos px, if_pos (first px)]
        · rw [if_neg px]
          exact Nat.zero_le _
      refine ⟨Nat.add_le_add le heads, fun eq i a b foundA foundB pb => ?_⟩
      cases i with
      | zero =>
        cases foundA
        cases foundB
        by_contra px
        rw [if_neg px, if_pos pb] at eq
        omega
      | succ i => exact same (by omega) i a b foundA foundB pb

theorem exists_astray (different : ¬ SortsInPlace (selections.map Selection.toOffsetRange)) :
    ∃ i s, selections[i]? = some s ∧ OverlapsAt (sortByStart (selections.map Selection.toOffsetRange)) i ∧
      ¬ OverlapsAt (selections.map Selection.toOffsetRange) i := by
  by_contra! none
  apply different
  have perm := sortByStart_perm (selections.map Selection.toOffsetRange)
  have valid := @ranges_valid selections
  have valid' : ∀ r ∈ sortByStart (selections.map Selection.toOffsetRange), r.Valid :=
    fun r member => valid r (perm.mem_iff.mp member)
  let crowded : Interval ℕ → Bool := fun a => 1 < (selections.map Selection.toOffsetRange).countP fun b => a.Touches b
  have given : ∀ i, OverlapsAt (selections.map Selection.toOffsetRange) i ↔
      ∃ a, (selections.map Selection.toOffsetRange)[i]? = some a ∧ crowded a := by
    intro i
    simpa [crowded] using Interval.overlapsAt_iff valid
  have sorted : ∀ i, OverlapsAt (sortByStart (selections.map Selection.toOffsetRange)) i ↔
      ∃ a, (sortByStart (selections.map Selection.toOffsetRange))[i]? = some a ∧ crowded a := by
    intro i
    simpa [crowded, perm.countP_eq] using Interval.overlapsAt_iff valid'
  have imp : ∀ (i : ℕ) a b, (sortByStart (selections.map Selection.toOffsetRange))[i]? = some a →
      (selections.map Selection.toOffsetRange)[i]? = some b → crowded a → crowded b := by
    intro i a b foundA foundB crowdedA
    rw [List.getElem?_map] at foundB
    obtain ⟨s, found, rfl⟩ := Option.map_eq_some_iff.mp foundB
    obtain ⟨b, foundB', crowdedB⟩ := (given i).mp (none i s found ((sorted i).mpr ⟨a, foundA, crowdedA⟩))
    rw [range_at found, Option.some.injEq] at foundB'
    exact foundB' ▸ crowdedB
  obtain ⟨-, back⟩ := countP_same_of_imp perm.length_eq imp
  have back := back (perm.countP_eq _)
  intro i
  rw [sorted, given]
  constructor
  · rintro ⟨a, foundA, crowdedA⟩
    have lt : i < (selections.map Selection.toOffsetRange).length := by
      rw [← perm.length_eq]
      exact (List.getElem?_eq_some_iff.mp foundA).1
    exact ⟨_, List.getElem?_eq_getElem lt, imp i a _ foundA (List.getElem?_eq_getElem lt) crowdedA⟩
  · rintro ⟨b, foundB, crowdedB⟩
    have lt : i < (sortByStart (selections.map Selection.toOffsetRange)).length := by
      rw [perm.length_eq]
      exact (List.getElem?_eq_some_iff.mp foundB).1
    exact ⟨_, List.getElem?_eq_getElem lt, back i _ b (List.getElem?_eq_getElem lt) foundB crowdedB⟩

theorem mergeOverlappingSelections_merged_iff (selections : List Selection) :
    Merged selections (mergeOverlappingSelections selections) ↔ SortsInPlace (selections.map Selection.toOffsetRange) := by
  refine ⟨fun merges => ?_, merged_of_sortsInPlace⟩
  by_contra different
  obtain ⟨i, s, found, overlaps, alone⟩ := exists_astray different
  obtain ⟨groups, indices, created, clusters, mem, result, ranges⟩ := mergeOverlappingSelections_spec selections
  have member := merges.alone i s found alone
  rw [result] at member
  rcases List.mem_append.mp member with kept | new
  · obtain ⟨j, again, outside⟩ := mem_keptSelections.mp kept
    have different : j ≠ i := by
      rintro rfl
      exact outside ((mem j).mpr overlaps)
    exact alone ⟨j, _, _, different, range_at found, range_at again, s.valid.touches⟩
  · exact kept_apart clusters found alone (ranges ▸ List.mem_map_of_mem new) s.valid.touches

/-- The second selection is lost, and the third one stays beside what it was merged into. -/
theorem mergeOverlappingSelections_unsorted :
    ¬ Merged [⟨5, 1⟩, ⟨10, 8⟩, ⟨7, 3⟩] (mergeOverlappingSelections [⟨5, 1⟩, ⟨10, 8⟩, ⟨7, 3⟩]) := by
  have sorted : sortByStart [⟨1, 5⟩, ⟨8, 10⟩, ⟨3, 7⟩] = [⟨1, 5⟩, ⟨3, 7⟩, (⟨8, 10⟩ : Interval ℕ)] := by
    simp [sortByStart, List.mergeSort]
  have found : overlappingRanges ([⟨5, 1⟩, ⟨10, 8⟩, ⟨7, 3⟩].map Selection.toOffsetRange) = ([0, 1], [⟨1, 7⟩]) := by
    change overlappingRanges [⟨1, 5⟩, ⟨8, 10⟩, (⟨3, 7⟩ : Interval ℕ)] = _
    rw [overlappingRanges, sorted]
    rfl
  rw [mergeOverlappingSelections, found]
  exact fun merges => absurd merges.apart (by decide)

end Merge

end Warp.Editor
