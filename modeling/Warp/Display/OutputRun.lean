import Mathlib.Data.List.TakeWhile
import Warp.Display.DisplayedOutput

namespace Warp.Display

open List Option

section Rows

variable {lines : List DisplayedRows}

def Ascending (lines : List DisplayedRows) : Prop := lines.Pairwise fun first second => first.stop < second.start

instance (lines : List DisplayedRows) : Decidable (Ascending lines) := inferInstanceAs (Decidable (List.Pairwise _ _))

theorem ascendingWindows_of_ascending (ascending : Ascending lines) : ascendingWindows lines = true := by
  induction lines with
  | nil => rfl
  | cons first lines ih =>
    obtain ⟨before, ascending⟩ := List.pairwise_cons.mp ascending
    cases lines with
    | nil => rfl
    | cons second lines =>
      unfold ascendingWindows
      rw [ih ascending, Bool.and_true, decide_eq_true_eq]
      exact before second mem_cons_self

theorem DisplayedOutput.asserted_of_ascending {debugAssertions : Bool} {output : DisplayedOutput}
    (ascending : Ascending output.displayedRows) : asserted debugAssertions output = some output := by
  unfold asserted
  rw [ascendingWindows_of_ascending ascending, Bool.not_true, Bool.and_false, if_neg Bool.false_ne_true]

theorem DisplayedRows.mem_rows {range : DisplayedRows} {row : ℕ} : row ∈ range.rows ↔ range.contains row := by
  have := range.nonempty
  unfold rows contains
  rw [mem_range'_1]
  omega

@[simp] theorem rowsOf_nil : rowsOf [] = [] := rfl

@[simp] theorem rowsOf_cons (rows : DisplayedRows) (lines : List DisplayedRows) :
    rowsOf (rows :: lines) = rows.rows ++ rowsOf lines := flatMap_cons

@[simp] theorem rowsOf_append (left right : List DisplayedRows) : rowsOf (left ++ right) = rowsOf left ++ rowsOf right :=
  flatMap_append

theorem mem_rowsOf {row : ℕ} : row ∈ rowsOf lines ↔ ∃ rows ∈ lines, rows.contains row := by
  unfold rowsOf
  simp only [mem_flatMap, DisplayedRows.mem_rows]

theorem rowsOf_sorted (ascending : Ascending lines) : (rowsOf lines).Pairwise (· < ·) := by
  induction lines with
  | nil => exact List.Pairwise.nil
  | cons first lines ih =>
    obtain ⟨before, ascending⟩ := List.pairwise_cons.mp ascending
    rw [rowsOf_cons]
    apply List.pairwise_append.mpr
    refine ⟨pairwise_lt_range', ih ascending, ?_⟩
    intro row member later laterMember
    have inside := DisplayedRows.mem_rows.mp member
    obtain ⟨rows, rowsMember, contains⟩ := mem_rowsOf.mp laterMember
    exact Nat.lt_of_le_of_lt inside.2 (Nat.lt_of_lt_of_le (before rows rowsMember) contains.1)

theorem rowsOf_nodup (ascending : Ascending lines) : (rowsOf lines).Nodup :=
  (rowsOf_sorted ascending).imp Nat.ne_of_lt

theorem addHeights_eq (height : ℕ) (lines : List DisplayedRows) :
    DisplayedOutput.addHeights height lines = height + (rowsOf lines).length := by
  unfold DisplayedOutput.addHeights
  induction lines generalizing height with
  | nil => rfl
  | cons rows lines ih =>
    rw [foldl_cons, ih, rowsOf_cons, length_append, DisplayedRows.rows, length_range', Nat.add_assoc]
    rfl

theorem subHeights_eq (height : ℕ) (lines : List DisplayedRows) :
    DisplayedOutput.subHeights height lines = height - (rowsOf lines).length := by
  unfold DisplayedOutput.subHeights
  induction lines generalizing height with
  | nil => rfl
  | cons rows lines ih =>
    rw [foldl_cons, ih, rowsOf_cons, length_append, DisplayedRows.rows, length_range', Nat.sub_sub]
    rfl

theorem rowsOf_concat_getElem? (lines : List DisplayedRows) (last : DisplayedRows) :
    (rowsOf (lines ++ [last]))[(rowsOf (lines ++ [last])).length - 1]? = some last.stop := by
  have := last.nonempty
  have split : rowsOf (lines ++ [last]) = rowsOf lines ++ List.range' last.start (last.stop - last.start) ++ [last.stop] := by
    rw [rowsOf_append, rowsOf_cons, rowsOf_nil, append_nil, append_assoc]
    congr 1
    unfold DisplayedRows.rows
    rw [List.range'_concat, Nat.one_mul, Nat.add_sub_cancel' last.nonempty]
  rw [split, length_append, length_singleton, Nat.add_sub_cancel, List.getElem?_concat_length]

end Rows

namespace DisplayedOutput

variable {debugAssertions : Bool} {output : DisplayedOutput} {lines : List DisplayedRows}

/-- The three views of the displayed rows agree. -/
structure Consistent (output : DisplayedOutput) : Prop where
  ascending : Ascending output.displayedRows
  height : output.height = output.rows.length
  translation : output.rowTranslationMap.inner.Enumerates output.rows

theorem newFromDisplayedLines_spec (ascending : Ascending lines) :
    ∃ next, newFromDisplayedLines debugAssertions lines = some next ∧ next.Consistent := by
  refine ⟨_, asserted_of_ascending ascending, ascending, ?_, ?_⟩
  · dsimp only
    rw [addHeights_eq, Nat.zero_add]
    rfl
  · have inserted := BiMap.enumerates_empty.insertFrom
      (by rw [nil_append]; exact rowsOf_nodup ascending)
    rw [nil_append] at inserted
    exact inserted

section

variable (consistent : output.Consistent)
include consistent

theorem Consistent.offset_after {before after : List DisplayedRows} (split : output.displayedRows = before ++ after) :
    ((before.getLast?.map DisplayedRows.stop).map fun row =>
      ((output.rowTranslationMap.inner.getByLeft row).map (· + 1)).getD 0).getD 0 = (rowsOf before).length := by
  rcases eq_nil_or_concat before with rfl | ⟨init, last, rfl⟩
  · rfl
  · rw [concat_eq_append, List.getLast?_concat, map_some, map_some, getD_some]
    have atLast := rowsOf_concat_getElem? init last
    have positive : 0 < (rowsOf (init ++ [last])).length := by
      rw [rowsOf_append, rowsOf_cons, DisplayedRows.rows]
      simp only [length_append, length_range']
      omega
    have found : output.rowTranslationMap.inner.getByLeft last.stop = some ((rowsOf (init ++ [last])).length - 1) := by
      rw [BiMap.getByLeft_eq_some_iff, consistent.translation]
      unfold rows
      rw [split, concat_eq_append, rowsOf_append, List.getElem?_append_left (by omega)]
      exact atLast
    rw [found, map_some, getD_some, Nat.sub_add_cancel positive]

theorem Consistent.extendDisplayedLines (ascending : Ascending (output.displayedRows ++ lines)) :
    ∃ next, output.extendDisplayedLines debugAssertions lines = some next ∧
      next.displayedRows = output.displayedRows ++ lines ∧ next.Consistent := by
  refine ⟨_, asserted_of_ascending ascending, rfl, ascending, ?_, ?_⟩
  · dsimp only [appendToRowTranslation, rows]
    rw [addHeights_eq, consistent.height, rowsOf_append, length_append]
    rfl
  · have inserted := consistent.translation.insertFrom
      (by unfold rows; rw [← rowsOf_append]; exact rowsOf_nodup ascending)
    have offset := consistent.offset_after (append_nil output.displayedRows).symm
    dsimp only [appendToRowTranslation, rows]
    rw [rowsOf_append]
    have sameOffset : ((output.rowTranslationMap.inner.getByLeft
        ((output.displayedRows.getLast?.map DisplayedRows.stop).getD 0)).map (· + 1)).getD 0 = output.rows.length := by
      unfold rows
      rw [← offset]
      cases isLast : output.displayedRows.getLast? with
      | some last => rfl
      | none =>
        have nothing : output.rows = [] := by
          unfold rows
          rw [List.getLast?_eq_none_iff.mp isLast, rowsOf_nil]
        have missing : output.rowTranslationMap.inner.getByLeft 0 = none := by
          cases found : output.rowTranslationMap.inner.getByLeft 0 with
          | none => rfl
          | some right =>
            have member := (consistent.translation _ _).mp (BiMap.getByLeft_eq_some_iff.mp found)
            rw [nothing] at member
            cases member
        rw [map_none, getD_none, missing]
        rfl
    rw [sameOffset]
    exact inserted

theorem Consistent.prependDisplayedLines (ascending : Ascending (lines ++ output.displayedRows)) :
    ∃ next, output.prependDisplayedLines debugAssertions lines = some next ∧
      next.displayedRows = lines ++ output.displayedRows ∧ next.Consistent := by
  refine ⟨_, asserted_of_ascending ascending, rfl, ascending, ?_, ?_⟩
  · dsimp only [prependToRowTranslation, rows]
    rw [addHeights_eq, consistent.height, rowsOf_append, length_append, Nat.add_comm]
    rfl
  · have inserted := BiMap.enumerates_empty.insertFrom
      (by rw [nil_append]; exact rowsOf_nodup ascending)
    rw [nil_append] at inserted
    exact inserted

theorem Consistent.spliceDisplayedLines {start stop : ℕ} (inOrder : start ≤ stop)
    (inside : stop ≤ output.displayedRows.length)
    (ascending : Ascending (output.displayedRows.take start ++ lines ++ output.displayedRows.drop stop)) :
    ∃ next, output.spliceDisplayedLines debugAssertions start stop lines =
        some ((output.displayedRows.take stop).drop start, next) ∧
      next.displayedRows = output.displayedRows.take start ++ lines ++ output.displayedRows.drop stop ∧
      next.Consistent := by
  have before : output.displayedRows = output.displayedRows.take start ++ output.displayedRows.drop start :=
    (take_append_drop start output.displayedRows).symm
  have parts : rowsOf output.displayedRows = rowsOf (output.displayedRows.take start) ++
      (rowsOf ((output.displayedRows.take stop).drop start) ++ rowsOf (output.displayedRows.drop stop)) := by
    rw [← rowsOf_append, ← rowsOf_append]
    congr 1
    have sameTake : output.displayedRows.take start = (output.displayedRows.take stop).take start := by
      rw [take_take, Nat.min_eq_left inOrder]
    rw [sameTake, ← append_assoc, take_append_drop, take_append_drop]
  have lengths := congrArg List.length parts
  simp only [length_append] at lengths
  have startLength : (output.displayedRows.take start).length = start := by
    rw [length_take, Nat.min_eq_left (Nat.le_trans inOrder inside)]
  have offset := consistent.offset_after before
  let replaced : DisplayedOutput := { output with
    displayedRows := output.displayedRows.take start ++ lines ++ output.displayedRows.drop stop
    height := addHeights output.height lines }
  let next : DisplayedOutput := { replaced.replaceRowsFromRowTranslation start with
    height := subHeights (addHeights output.height lines) ((output.displayedRows.take stop).drop start) }
  have checked : asserted debugAssertions next = some next := asserted_of_ascending ascending
  refine ⟨next, ?_, rfl, ascending, ?_, ?_⟩
  · unfold DisplayedOutput.spliceDisplayedLines
    rw [if_pos ⟨inOrder, inside⟩]
    change (asserted debugAssertions next).bind _ = _
    rw [checked]
    rfl
  · dsimp only [rows, next, replaced, replaceRowsFromRowTranslation]
    rw [subHeights_eq, addHeights_eq, consistent.height, rowsOf_append, rowsOf_append]
    simp only [length_append]
    unfold rows
    omega
  · have sameOffset : ((if start = 0 then none else
          (output.displayedRows.take start ++ lines ++ output.displayedRows.drop stop)[start - 1]?.map
            DisplayedRows.stop).map fun row =>
          ((output.rowTranslationMap.inner.getByLeft row).map (· + 1)).getD 0).getD 0 =
        (rowsOf (output.displayedRows.take start)).length := by
      rw [← offset]
      by_cases atFront : start = 0
      · subst atFront
        rfl
      · rw [if_neg atFront, append_assoc, List.getElem?_append_left (by omega), List.getLast?_eq_getElem?,
          startLength]
    dsimp only [rows, next, replaced, replaceRowsFromRowTranslation]
    rw [sameOffset, append_assoc, drop_left' startLength]
    simp only [rowsOf_append]
    have kept := consistent.translation.removeRights (rowsOf (output.displayedRows.take start)).length
    have front : output.rows.take (rowsOf (output.displayedRows.take start)).length =
        rowsOf (output.displayedRows.take start) := by
      unfold rows
      rw [parts, take_left]
    rw [front] at kept
    apply kept.insertFrom
    rw [← rowsOf_append, ← rowsOf_append, ← append_assoc]
    exact rowsOf_nodup ascending

end

theorem exists_split_at_row (ascending : Ascending lines) (row : ℕ) :
    ∃ before reaching, lines = before ++ reaching ∧ (∀ rows ∈ before, rows.stop < row) ∧
      ∀ rows ∈ reaching, row ≤ rows.stop := by
  induction lines with
  | nil => exact ⟨[], [], rfl, nofun, nofun⟩
  | cons first lines ih =>
    obtain ⟨below, ascending⟩ := List.pairwise_cons.mp ascending
    by_cases early : first.stop < row
    · obtain ⟨before, reaching, rfl, before_lt, reaching_le⟩ := ih ascending
      refine ⟨first :: before, reaching, rfl, ?_, reaching_le⟩
      exact List.forall_mem_cons.mpr ⟨early, before_lt⟩
    · refine ⟨[], first :: lines, rfl, nofun, ?_⟩
      intro rows member
      rcases List.mem_cons.mp member with rfl | member
      · exact Nat.le_of_not_lt early
      · have later := below rows member
        have := rows.nonempty
        omega

theorem firstRowsGreaterThanOrContainedIn_eq {row : ℕ} {before reaching : List DisplayedRows}
    (split : output.displayedRows = before ++ reaching) (before_lt : ∀ rows ∈ before, rows.stop < row)
    (reaching_le : ∀ rows ∈ reaching, row ≤ rows.stop) :
    output.firstRowsGreaterThanOrContainedIn row = reaching.head?.map fun first => (first, before.length) := by
  have beforeFails : (before.zipIdx.reverse.takeWhile fun entry => decide (row ≤ entry.1.stop)) = [] := by
    rw [takeWhile_eq_nil_iff]
    intro positive passes
    have member := List.mem_reverse.mp (List.get_mem before.zipIdx.reverse ⟨0, positive⟩)
    have early := before_lt _ (fst_mem_of_mem_zipIdx member)
    exact absurd (of_decide_eq_true passes) (Nat.not_le.mpr early)
  have reachingPasses : ∀ entry ∈ (reaching.zipIdx before.length).reverse, decide (row ≤ entry.1.stop) = true := by
    intro entry member
    exact decide_eq_true (reaching_le _ (fst_mem_of_mem_zipIdx (List.mem_reverse.mp member)))
  unfold firstRowsGreaterThanOrContainedIn
  rw [split, zipIdx_append, reverse_append, Nat.zero_add,
    takeWhile_append_of_pos reachingPasses, beforeFails, append_nil, List.getLast?_reverse]
  cases reaching <;> rfl

theorem rowsOf_partialRows {row : ℕ} {first : DisplayedRows} (reaches : row ≤ first.stop) :
    rowsOf (partialRows row first) = first.rows.filter (· ≤ row) := by
  unfold partialRows
  by_cases inside : first.contains row
  · rw [dif_pos inside, rowsOf_cons, rowsOf_nil, append_nil]
    have parts : first.rows = List.range' first.start (row - first.start + 1) ++
        List.range' (row + 1) (first.stop - row) := by
      have := inside.1
      have := @List.range'_append first.start (row - first.start + 1) (first.stop - row) 1
      rw [show first.start + 1 * (row - first.start + 1) = row + 1 by omega] at this
      rw [this]
      unfold DisplayedRows.rows
      congr 1
      omega
    rw [parts, filter_append, List.filter_eq_self.mpr, List.filter_eq_nil_iff.mpr, append_nil]
    · rfl
    · intro other member
      have := (mem_range'_1.mp member).1
      simp only [decide_eq_true_eq]
      omega
    · intro other member
      have := (mem_range'_1.mp member).2
      have := inside.1
      simp only [decide_eq_true_eq]
      omega
  · rw [dif_neg inside, rowsOf_nil]
    symm
    apply List.filter_eq_nil_iff.mpr
    intro other member
    have after := (DisplayedRows.mem_rows.mp member).1
    simp only [decide_eq_true_eq]
    intro small
    exact inside ⟨Nat.le_trans after small, reaches⟩

theorem Consistent.truncateFrom_views (consistent : output.Consistent) (row : ℕ) :
    Ascending (output.truncateFrom row).displayedRows ∧
      (output.truncateFrom row).height = (output.truncateFrom row).rows.length ∧
      (output.truncateFrom row).rows = output.rows.filter (· ≤ row) ∧
      (output.truncateFrom row).rowTranslationMap = output.rowTranslationMap := by
  obtain ⟨before, reaching, split, before_lt, reaching_le⟩ := exists_split_at_row consistent.ascending row
  have found := firstRowsGreaterThanOrContainedIn_eq split before_lt reaching_le
  have keepsBefore : (rowsOf before).filter (· ≤ row) = rowsOf before := by
    apply List.filter_eq_self.mpr
    intro other member
    obtain ⟨rows, rowsMember, contains⟩ := mem_rowsOf.mp member
    have early := before_lt rows rowsMember
    exact decide_eq_true (Nat.le_trans contains.2 (Nat.le_of_lt early))
  have ascending := consistent.ascending
  cases reaching with
  | nil =>
    have same : output.truncateFrom row = output := by
      unfold truncateFrom
      rw [found]
      rfl
    rw [same]
    refine ⟨ascending, consistent.height, ?_, rfl⟩
    unfold rows
    rw [split, append_nil, keepsBefore]
  | cons first rest =>
    rw [split] at ascending
    obtain ⟨beforeAscending, reachingAscending, across⟩ := List.pairwise_append.mp ascending
    obtain ⟨below, -⟩ := List.pairwise_cons.mp reachingAscending
    have dropsRest : (rowsOf rest).filter (· ≤ row) = [] := by
      apply List.filter_eq_nil_iff.mpr
      intro other member
      obtain ⟨rows, rowsMember, contains⟩ := mem_rowsOf.mp member
      have later := below rows rowsMember
      have reaches := reaching_le first mem_cons_self
      have := contains.1
      simp only [decide_eq_true_eq]
      omega
    have next : output.truncateFrom row = { output with
        displayedRows := before ++ partialRows row first
        height := addHeights (subHeights output.height (first :: rest)) (partialRows row first) } := by
      unfold truncateFrom
      rw [found]
      simp only [List.head?_cons, map_some]
      rw [split, drop_left, take_left]
      rfl
    have rowsNext : rowsOf (before ++ partialRows row first) = output.rows.filter (· ≤ row) := by
      unfold rows
      rw [split, rowsOf_append, rowsOf_append, rowsOf_cons, filter_append, filter_append, keepsBefore,
        dropsRest, append_nil, rowsOf_partialRows (reaching_le first mem_cons_self)]
    rw [next]
    refine ⟨?_, ?_, rowsNext, rfl⟩
    · apply List.pairwise_append.mpr
      refine ⟨beforeAscending, ?_, ?_⟩
      · unfold partialRows
        by_cases inside : first.contains row
        · rw [dif_pos inside]
          exact pairwise_singleton _ _
        · rw [dif_neg inside]
          exact List.Pairwise.nil
      · intro rows member kept keptMember
        have separated := across rows member first mem_cons_self
        unfold partialRows at keptMember
        by_cases inside : first.contains row
        · rw [dif_pos inside] at keptMember
          rw [List.mem_singleton.mp keptMember]
          exact separated
        · rw [dif_neg inside] at keptMember
          cases keptMember
    · unfold rows
      dsimp only
      rw [addHeights_eq, subHeights_eq, consistent.height, rowsOf_append, length_append]
      congr 1
      unfold rows
      rw [split, rowsOf_append, length_append, Nat.add_sub_cancel]

theorem Consistent.truncateToRow_views (consistent : output.Consistent) (row : ℕ) :
    Ascending (output.truncateToRow row).displayedRows ∧
      (output.truncateToRow row).height = (output.truncateToRow row).rows.length ∧
      (output.truncateToRow row).rows = output.rows.filter (· ≤ row) ∧
      (output.truncateToRow row).rowTranslationMap = output.rowTranslationMap := by
  unfold truncateToRow
  cases isFirst : output.displayedRows.head? with
  | none =>
    rw [List.head?_eq_none_iff] at isFirst
    simp only [isFirst, List.getLast?_nil]
    exact consistent.truncateFrom_views row
  | some first =>
    simp only
    by_cases early : row < first.start
    · rw [if_pos early]
      refine ⟨List.Pairwise.nil, rfl, ?_, rfl⟩
      symm
      apply List.filter_eq_nil_iff.mpr
      intro other member
      obtain ⟨lines, split⟩ := List.head?_eq_some_iff.mp isFirst
      have ascending := consistent.ascending
      unfold rows at member
      rw [split] at ascending member
      have nonempty := first.nonempty
      have atLeast : first.start ≤ other := by
        obtain ⟨range, rangeMember, contains⟩ := mem_rowsOf.mp member
        rcases List.mem_cons.mp rangeMember with rfl | later
        · exact contains.1
        · have := (List.pairwise_cons.mp ascending).1 range later
          have := contains.1
          omega
      simp only [decide_eq_true_eq]
      omega
    · rw [if_neg early]
      exact consistent.truncateFrom_views row

theorem Consistent.truncateToRow_iff (consistent : output.Consistent) (row : ℕ) :
    (output.truncateToRow row).Consistent ↔ ∀ displayed ∈ output.rows, displayed ≤ row := by
  obtain ⟨ascending, height, rowsNext, sameMap⟩ := consistent.truncateToRow_views row
  constructor
  · intro next
    have lengths := next.translation.length_eq
    rw [sameMap, consistent.translation.length_eq, rowsNext] at lengths
    have allKept := List.length_filter_eq_length_iff.mp lengths.symm
    intro displayed member
    exact of_decide_eq_true (allKept displayed member)
  · intro allKept
    refine ⟨ascending, height, ?_⟩
    rw [rowsNext, sameMap, List.filter_eq_self.mpr fun displayed member => decide_eq_true (allKept displayed member)]
    exact consistent.translation

theorem Consistent.reset : output.reset.Consistent := ⟨List.Pairwise.nil, rfl, BiMap.enumerates_empty⟩

section Search

variable {xs : List ℕ} {target : ℕ}

theorem searchDisplayedRow_eq (enumerates : output.rowTranslationMap.inner.Enumerates xs)
    (sorted : xs.Pairwise (· < ·)) (missing : target ∉ xs) {low high : ℕ} {candidate : Option ℕ} (bounds : low ≤ high + 1)
    (inside : high < xs.length) (smaller : ∀ i < low, ∀ row ∈ xs[i]?, row < target)
    (isCandidate : candidate = if high + 1 < xs.length then some (high + 1) else none)
    (greater : ∀ row ∈ xs[high + 1]?, target < row) :
    output.searchDisplayedRow target low high candidate = xs.findIdx? (target ≤ ·) := by
  have firstAt : ∀ i, (∀ j < i, ∀ row ∈ xs[j]?, row < target) → (∀ row ∈ xs[i]?, target < row) → i < xs.length →
      xs.findIdx? (target ≤ ·) = some i := by
    intro i below above within
    rw [List.findIdx?_eq_some_iff_getElem]
    refine ⟨within, decide_eq_true (Nat.le_of_lt (above _ (List.getElem?_eq_getElem within))), ?_⟩
    intro j before
    have := below j before _ (List.getElem?_eq_getElem (Nat.lt_trans before within))
    simp only [decide_eq_true_eq]
    omega
  fun_induction searchDisplayedRow output target low high candidate with
  | case1 low high candidate inOrder displayedRow notFound =>
    have found := List.getElem?_eq_getElem (l := xs) (i := displayedRow) (by omega)
    rw [← enumerates, ← BiMap.getByRight_eq_some_iff, notFound] at found
    cases found
  | case2 low high candidate inOrder displayedRow originalRow found isGreater atZero =>
    rw [BiMap.getByRight_eq_some_iff, enumerates] at found
    symm
    apply firstAt
    · intro j before
      omega
    · intro row atRow
      rw [mem_def, found] at atRow
      injection atRow with same
      exact same ▸ isGreater
    · omega
  | case3 low high candidate inOrder displayedRow originalRow found isGreater positive ih =>
    rw [BiMap.getByRight_eq_some_iff, enumerates] at found
    apply ih
    · omega
    · omega
    · exact smaller
    · rw [Nat.sub_add_cancel (Nat.pos_of_ne_zero positive), if_pos (by omega)]
    · intro row atRow
      rw [Nat.sub_add_cancel (Nat.pos_of_ne_zero positive), mem_def, found] at atRow
      injection atRow with same
      exact same ▸ isGreater
  | case4 low high candidate inOrder displayedRow originalRow found notGreater isSmaller ih =>
    rw [BiMap.getByRight_eq_some_iff, enumerates] at found
    apply ih (by omega) inside _ isCandidate greater
    intro i before row atRow
    rcases Nat.lt_or_eq_of_le (Nat.le_of_lt_succ before) with earlier | rfl
    · obtain ⟨_, atRow⟩ := List.getElem?_eq_some_iff.mp atRow
      obtain ⟨_, atDisplayed⟩ := List.getElem?_eq_some_iff.mp found
      have := List.pairwise_iff_getElem.mp sorted i displayedRow (by omega) (by omega) earlier
      omega
    · rw [mem_def, found] at atRow
      injection atRow with same
      exact same ▸ isSmaller
  | case5 low high candidate inOrder displayedRow originalRow found notGreater notSmaller =>
    rw [BiMap.getByRight_eq_some_iff, enumerates] at found
    have same : originalRow = target := by omega
    exact absurd (same ▸ mem_of_getElem? found) missing
  | case6 low high candidate outOfOrder =>
    have atEnd : low = high + 1 := by omega
    subst atEnd
    rw [isCandidate]
    by_cases next : high + 1 < xs.length
    · rw [if_pos next, firstAt (high + 1) smaller greater next]
    · rw [if_neg next]
      symm
      rw [List.findIdx?_eq_none_iff]
      intro row member
      obtain ⟨i, within, rfl⟩ := getElem_of_mem member
      have := smaller i (by omega) _ (List.getElem?_eq_getElem within)
      exact decide_eq_false (by omega)

end Search

structure Agrees (output : DisplayedOutput) : Prop where
  height : output.height = output.rows.length
  translation : output.rowTranslationMap.inner.Enumerates output.rows
  isDisplayedRow : ∀ row, output.isDisplayedRow row = true ↔ row ∈ output.rows
  originalToDisplayed : ∀ point, output.maybeTranslatePointFromOriginalToDisplayed point =
    ((output.rows.idxOf? point.row).map fun row => (⟨row, point.col⟩ : Point)).getD point
  displayedToOriginal : ∀ point, output.maybeTranslatePointFromDisplayedToOriginal point =
    (output.rows[point.row]?.map fun row => (⟨row, point.col⟩ : Point)).getD point
  rowDisplayedToOriginal : ∀ row, output.maybeTranslateRowFromDisplayedToOriginal row = output.rows[row]?.getD row
  exactOrNext : ∀ target, output.getExactOrNextDisplayedRow target = output.rows.findIdx? (target ≤ ·)

theorem getByRight_eq {xs : List ℕ} (enumerates : output.rowTranslationMap.inner.Enumerates xs) (row : ℕ) :
    output.rowTranslationMap.inner.getByRight row = xs[row]? := by
  ext original
  rw [BiMap.getByRight_eq_some_iff, enumerates]

theorem getByLeft_eq {xs : List ℕ} (enumerates : output.rowTranslationMap.inner.Enumerates xs)
    (sorted : xs.Pairwise (· < ·)) (row : ℕ) : output.rowTranslationMap.inner.getByLeft row = xs.idxOf? row := by
  ext displayed
  rw [BiMap.getByLeft_eq_some_iff, enumerates, List.idxOf?_eq_some_iff, List.getElem?_eq_some_iff]
  constructor
  · rintro ⟨inside, atRow⟩
    refine ⟨inside, atRow, ?_⟩
    intro j before
    have := List.pairwise_iff_getElem.mp sorted j displayed (by omega) inside before
    omega
  · rintro ⟨inside, atRow, -⟩
    exact ⟨inside, atRow⟩

theorem Consistent.agrees (consistent : output.Consistent) : output.Agrees := by
  have sorted : output.rows.Pairwise (· < ·) := rowsOf_sorted consistent.ascending
  have byRight := getByRight_eq consistent.translation
  have byLeft := getByLeft_eq consistent.translation sorted
  have len := consistent.translation.length_eq
  refine ⟨consistent.height, consistent.translation, ?_, ?_, ?_, ?_, ?_⟩
  · intro row
    change output.rowTranslationMap.inner.containsLeft row = true ↔ _
    rw [BiMap.containsLeft_iff]
    simp only [consistent.translation row, mem_iff_getElem?]
  · intro point
    change ((output.rowTranslationMap.inner.getByLeft point.row).map _).getD point = _
    rw [byLeft]
  · intro point
    change ((output.rowTranslationMap.inner.getByRight point.row).map _).getD point = _
    rw [byRight]
  · intro row
    change (output.rowTranslationMap.inner.getByRight row).getD row = _
    rw [byRight]
  · intro target
    unfold getExactOrNextDisplayedRow
    by_cases nothing : output.rowTranslationMap.inner.isEmpty = true
    · rw [if_pos nothing]
      have noEntries : output.rows.length = 0 := by
        rw [← len]
        unfold BiMap.isEmpty at nothing
        rw [List.isEmpty_iff] at nothing
        unfold BiMap.len
        rw [nothing]
        rfl
      rw [List.length_eq_zero_iff.mp noEntries]
      rfl
    · rw [if_neg nothing]
      have positive : 0 < output.rows.length := by
        rw [← len]
        apply List.length_pos_iff.mpr
        intro noEntries
        apply nothing
        unfold BiMap.isEmpty
        rw [noEntries]
        rfl
      cases isExact : output.rowTranslationMap.inner.getByLeft target with
      | some displayed =>
        rw [byLeft, List.idxOf?_eq_some_iff] at isExact
        obtain ⟨inside, atRow, -⟩ := isExact
        symm
        rw [List.findIdx?_eq_some_iff_getElem]
        refine ⟨inside, decide_eq_true (Nat.le_of_eq atRow.symm), ?_⟩
        intro j before
        have := List.pairwise_iff_getElem.mp sorted j displayed (by omega) inside before
        simp only [decide_eq_true_eq]
        omega
      | none =>
        rw [byLeft, List.idxOf?_eq_none_iff] at isExact
        rw [len]
        apply searchDisplayedRow_eq consistent.translation sorted isExact
        · omega
        · omega
        · intro i before
          omega
        · rw [if_neg (by omega)]
        · intro row atRow
          rw [Nat.sub_add_cancel positive, mem_def, List.getElem?_length] at atRow
          cases atRow

end DisplayedOutput

inductive OutputCall where
  | extendDisplayedLines (lines : List DisplayedRows)
  | prependDisplayedLines (lines : List DisplayedRows)
  | spliceDisplayedLines (replaceStart replaceStop : ℕ) (lines : List DisplayedRows)
  | truncateToRow (row : ℕ)
  | reset

namespace OutputCall

variable {debugAssertions : Bool}

def apply (debugAssertions : Bool) (output : DisplayedOutput) : OutputCall → Option DisplayedOutput
  | extendDisplayedLines lines => output.extendDisplayedLines debugAssertions lines
  | prependDisplayedLines lines => output.prependDisplayedLines debugAssertions lines
  | spliceDisplayedLines replaceStart replaceStop lines =>
    (output.spliceDisplayedLines debugAssertions replaceStart replaceStop lines).map Prod.snd
  | truncateToRow row => some (output.truncateToRow row)
  | reset => some output.reset

/-- What the callers guarantee: the ranges stay ascending and disjoint. -/
def Guaranteed (output : DisplayedOutput) : OutputCall → Prop
  | extendDisplayedLines lines => Ascending (output.displayedRows ++ lines)
  | prependDisplayedLines lines => Ascending (lines ++ output.displayedRows)
  | spliceDisplayedLines replaceStart replaceStop lines =>
    replaceStart ≤ replaceStop ∧ replaceStop ≤ output.displayedRows.length ∧
      Ascending (output.displayedRows.take replaceStart ++ lines ++ output.displayedRows.drop replaceStop)
  | truncateToRow _ | reset => True

def KeepsRows (output : DisplayedOutput) : OutputCall → Prop
  | truncateToRow row => ∀ displayed ∈ output.rows, displayed ≤ row
  | _ => True

variable {output : DisplayedOutput}

theorem apply_spec (consistent : output.Consistent) {call : OutputCall} (guaranteed : call.Guaranteed output)
    (keeps : call.KeepsRows output) :
    ∃ next, call.apply debugAssertions output = some next ∧ next.Consistent := by
  cases call with
  | extendDisplayedLines lines =>
    obtain ⟨next, applied, -, nextConsistent⟩ := consistent.extendDisplayedLines guaranteed
    exact ⟨next, applied, nextConsistent⟩
  | prependDisplayedLines lines =>
    obtain ⟨next, applied, -, nextConsistent⟩ := consistent.prependDisplayedLines guaranteed
    exact ⟨next, applied, nextConsistent⟩
  | spliceDisplayedLines replaceStart replaceStop lines =>
    obtain ⟨inOrder, inside, ascending⟩ := guaranteed
    obtain ⟨next, applied, -, nextConsistent⟩ :=
      consistent.spliceDisplayedLines inOrder inside ascending
    exact ⟨next, congrArg (Option.map Prod.snd) applied, nextConsistent⟩
  | truncateToRow row => exact ⟨_, rfl, (consistent.truncateToRow_iff row).mpr keeps⟩
  | reset => exact ⟨_, rfl, DisplayedOutput.Consistent.reset⟩

/-- Every call of the run keeps the guarantee of its caller and removes no displayed row, in the state before it. -/
def RunMeets (debugAssertions : Bool) : List OutputCall → DisplayedOutput → Prop
  | [], _ => True
  | call :: calls, output => call.Guaranteed output ∧ call.KeepsRows output ∧
    ∀ next ∈ call.apply debugAssertions output, RunMeets debugAssertions calls next

theorem run_spec (calls : List OutputCall) (consistent : output.Consistent)
    (meets : RunMeets debugAssertions calls output) :
    ∃ final, calls.foldlM (apply debugAssertions) output = some final ∧ final.Consistent := by
  induction calls generalizing output with
  | nil => exact ⟨output, rfl, consistent⟩
  | cons call calls ih =>
    obtain ⟨guaranteed, keeps, rest⟩ := meets
    obtain ⟨next, applied, nextConsistent⟩ := apply_spec consistent guaranteed keeps
    obtain ⟨final, ran, finalConsistent⟩ := ih nextConsistent (rest next applied)
    refine ⟨final, ?_, finalConsistent⟩
    rw [foldlM_cons, applied]
    exact ran

/-- The views of a displayed output agree as long as no displayed row is truncated away. -/
theorem run_agrees (lines : List DisplayedRows) (calls : List OutputCall) (ascending : Ascending lines)
    (meets : ∀ output ∈ DisplayedOutput.newFromDisplayedLines debugAssertions lines,
      RunMeets debugAssertions calls output) :
    ∃ output, DisplayedOutput.newFromDisplayedLines debugAssertions lines = some output ∧
      ∃ final, calls.foldlM (apply debugAssertions) output = some final ∧ final.Agrees := by
  obtain ⟨output, created, consistent⟩ :=
    DisplayedOutput.newFromDisplayedLines_spec ascending
  obtain ⟨final, ran, finalConsistent⟩ := run_spec calls consistent (meets output created)
  exact ⟨output, created, final, ran, finalConsistent.agrees⟩

instance (output : DisplayedOutput) : (call : OutputCall) → Decidable (call.Guaranteed output)
  | .extendDisplayedLines lines => inferInstanceAs (Decidable (Ascending (output.displayedRows ++ lines)))
  | .prependDisplayedLines lines => inferInstanceAs (Decidable (Ascending (lines ++ output.displayedRows)))
  | .spliceDisplayedLines replaceStart replaceStop lines =>
    inferInstanceAs (Decidable (replaceStart ≤ replaceStop ∧ replaceStop ≤ output.displayedRows.length ∧
      Ascending (output.displayedRows.take replaceStart ++ lines ++ output.displayedRows.drop replaceStop)))
  | .truncateToRow _ | .reset => isTrue trivial

instance (output : DisplayedOutput) : (call : OutputCall) → Decidable (call.KeepsRows output)
  | .truncateToRow row => inferInstanceAs (Decidable (∀ displayed ∈ output.rows, displayed ≤ row))
  | .extendDisplayedLines _ | .prependDisplayedLines _ | .spliceDisplayedLines _ _ _ | .reset => isTrue trivial

instance decidableRunMeets (debugAssertions : Bool) : (calls : List OutputCall) → (output : DisplayedOutput) →
    Decidable (RunMeets debugAssertions calls output)
  | [], _ => isTrue trivial
  | call :: calls, output =>
    have := decidableRunMeets debugAssertions calls
    inferInstanceAs (Decidable (call.Guaranteed output ∧ call.KeepsRows output ∧
      ∀ next ∈ call.apply debugAssertions output, RunMeets debugAssertions calls next))

theorem run_agrees_edited :
    let lines : List DisplayedRows := [⟨2, 4, by decide, .filterMatch⟩, ⟨6, 10, by decide, .filterContext⟩]
    let calls : List OutputCall :=
      [.extendDisplayedLines [⟨16, 17, by decide, .filterMatch⟩], .prependDisplayedLines [⟨0, 0, by decide, .filterMatch⟩],
        .spliceDisplayedLines 1 3 [⟨3, 5, by decide, .filterMatch⟩], .truncateToRow 17]
    ∃ output, DisplayedOutput.newFromDisplayedLines true lines = some output ∧
      ∃ final, calls.foldlM (apply true) output = some final ∧ final.Agrees :=
  run_agrees _ _ (by decide) (by decide +kernel)

/-- The row a truncation removes is still taken for a displayed one. -/
theorem truncated_row_displayed :
    let lines : List DisplayedRows := [⟨2, 4, by decide, .filterMatch⟩, ⟨6, 10, by decide, .filterMatch⟩]
    let calls : List OutputCall := [.truncateToRow 8]
    Ascending lines ∧ ∃ output, DisplayedOutput.newFromDisplayedLines true lines = some output ∧
      ∃ final, calls.foldlM (apply true) output = some final ∧
        final.isDisplayedRow 9 = true ∧ 9 ∉ final.rows ∧ ¬final.Agrees := by
  refine ⟨by decide, _, rfl, _, rfl, by decide +kernel, by decide +kernel, ?_⟩
  intro agrees
  have member := (agrees.isDisplayedRow 9).mp (by decide +kernel)
  exact absurd member (by decide +kernel)

end OutputCall

end Warp.Display
