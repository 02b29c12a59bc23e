import Warp.Grid.IndexRows

namespace Warp.Grid

open List

structure Wrapping where
  rows : List TextRow
  current : List Grapheme
  width : ℕ

namespace Wrapping

def add (columns : ℕ) (wrapping : Wrapping) (grapheme : Grapheme) : Wrapping :=
  if wrapping.width + grapheme.info.cellWidth > columns then
    ⟨wrapping.rows ++ [⟨wrapping.current, false⟩], [grapheme], grapheme.info.cellWidth⟩
  else ⟨wrapping.rows, wrapping.current ++ [grapheme], wrapping.width + grapheme.info.cellWidth⟩

def addRow (columns : ℕ) (wrapping : Wrapping) (row : TextRow) : Wrapping :=
  let wrapping := row.graphemes.foldl (add columns) wrapping
  if row.newline then ⟨wrapping.rows ++ [⟨wrapping.current, true⟩], [], 0⟩ else wrapping

def finish (wrapping : Wrapping) : List TextRow :=
  if wrapping.current = [] then wrapping.rows else wrapping.rows ++ [⟨wrapping.current, false⟩]

def written (wrapping : Wrapping) : List Grapheme := Warp.Grid.written wrapping.rows ++ wrapping.current

end Wrapping

def rewrap (columns : ℕ) (rows : List TextRow) : List TextRow :=
  (rows.foldl (Wrapping.addRow columns) ⟨[], [], 0⟩).finish

section Written

variable {columns : ℕ}

theorem Wrapping.written_add (wrapping : Wrapping) (grapheme : Grapheme) :
    (wrapping.add columns grapheme).written = wrapping.written ++ [grapheme] := by
  unfold add written
  split <;> simp [TextRow.written]

theorem Wrapping.written_foldl_add (graphemes : List Grapheme) (wrapping : Wrapping) :
    (graphemes.foldl (add columns) wrapping).written = wrapping.written ++ graphemes := by
  induction graphemes generalizing wrapping with
  | nil => simp
  | cons grapheme graphemes ih => rw [foldl_cons, ih, written_add, append_assoc]; rfl

theorem Wrapping.written_addRow (wrapping : Wrapping) (row : TextRow) :
    (wrapping.addRow columns row).written = wrapping.written ++ row.written := by
  have graphemes := @written_foldl_add columns row.graphemes wrapping
  unfold addRow TextRow.written
  cases row.newline
  · simpa using graphemes
  · unfold written at graphemes ⊢
    simp only [if_true, written_append, written_cons, written_nil, TextRow.written, append_nil]
    rw [← append_assoc, graphemes, append_assoc]

theorem Wrapping.written_foldl_addRow (rows : List TextRow) (wrapping : Wrapping) :
    (rows.foldl (addRow columns) wrapping).written = wrapping.written ++ Warp.Grid.written rows := by
  induction rows generalizing wrapping with
  | nil => simp
  | cons row rows ih => rw [foldl_cons, ih, written_addRow, written_cons, append_assoc]

theorem Wrapping.written_finish (wrapping : Wrapping) : Warp.Grid.written wrapping.finish = wrapping.written := by
  unfold finish written
  split
  · rename_i nothing
    rw [nothing, append_nil]
  · simp [TextRow.written]

theorem written_rewrap (columns : ℕ) (rows : List TextRow) : written (rewrap columns rows) = written rows := by
  unfold rewrap
  rw [Wrapping.written_finish, Wrapping.written_foldl_addRow]
  rfl

end Written

section Rebuild

variable {columns start : ℕ} {debugAssertions : Bool} {wrapping : Wrapping} {state next : EntryBuilder × Index}

/-- A builder and the index it appends to hold what the abstract wrapping holds. -/
structure Wraps (columns start : ℕ) (wrapping : Wrapping) (state : EntryBuilder × Index) : Prop where
  columns : state.2.columns = columns
  indexes : state.2.Indexes start wrapping.rows
  builds : state.1.Builds ⟨wrapping.current, false⟩
  width : state.1.numCells = wrapping.width
  spacer : state.1.endsWithLeadingWideCharSpacer = false

theorem Wraps.processGraphemeInfo (wraps : Wraps columns start wrapping state) {grapheme : Grapheme}
    (wide : 0 < grapheme.info.cellWidth)
    (processed : state.1.processGraphemeInfo debugAssertions grapheme.info state.2 = some next) :
    Wraps columns start (wrapping.add columns grapheme) next := by
  obtain ⟨builder, index⟩ := state
  obtain ⟨sameColumns, indexes, builds, width, spacer⟩ := wraps
  have sameColumns : index.columns = columns := sameColumns
  have width : builder.numCells = wrapping.width := width
  unfold EntryBuilder.processGraphemeInfo at processed
  rw [if_neg (by omega)] at processed
  split at processed
  · cases processed
  · unfold EntryBuilder.wrap at processed
    unfold Wrapping.add
    by_cases full : wrapping.width + grapheme.info.cellWidth > columns
    · rw [width, sameColumns, if_pos full] at processed
      obtain ⟨built, pushed, rfl⟩ := Option.map_eq_some_iff.mp processed
      have started : ({ numCells := 0 + grapheme.info.cellWidth } : EntryBuilder).Builds ⟨[], false⟩ := ⟨rfl, rfl, rfl⟩
      obtain ⟨grown, cells, sameSpacer⟩ := @EntryBuilder.Builds.push _ _ ⟨[], false⟩ started _ pushed
      rw [if_pos full]
      have cells : built.numCells = grapheme.info.cellWidth := cells.trans (Nat.zero_add _)
      by_cases marked : grapheme.info.cellWidth > 1 ∧ wrapping.width ≠ columns
      · rw [if_pos marked]
        obtain ⟨appended, kept⟩ := EntryBuilder.appendToIndex_spec indexes builds.addLeadingWideCharSpacer
        exact ⟨kept.trans sameColumns, appended, grown, cells, sameSpacer⟩
      · rw [if_neg marked]
        obtain ⟨appended, kept⟩ := EntryBuilder.appendToIndex_spec indexes builds
        exact ⟨kept.trans sameColumns, appended, grown, cells, sameSpacer⟩
    · rw [width, sameColumns, if_neg full] at processed
      obtain ⟨built, pushed, rfl⟩ := Option.map_eq_some_iff.mp processed
      have started : ({ builder with numCells := builder.numCells + grapheme.info.cellWidth } : EntryBuilder).Builds
          ⟨wrapping.current, false⟩ := ⟨builds.len, builds.runs, builds.newline⟩
      obtain ⟨grown, cells, sameSpacer⟩ := @EntryBuilder.Builds.push _ _ ⟨wrapping.current, false⟩ started _ pushed
      rw [if_neg full]
      exact ⟨sameColumns, indexes, grown, cells.trans (congrArg (· + _) width), sameSpacer.trans spacer⟩

variable {graphemes : List Grapheme} {oldIndex : Index} {rows : List TextRow}

theorem Wraps.foldlM_processGraphemeInfo (wraps : Wraps columns start wrapping state)
    (fromCells : ∀ grapheme ∈ graphemes, grapheme.FromCell)
    (processed : (graphemes.map Grapheme.info).foldlM (fun state info => state.1.processGraphemeInfo debugAssertions info state.2) state = some next) :
    Wraps columns start (graphemes.foldl (Wrapping.add columns) wrapping) next := by
  induction graphemes generalizing wrapping state with
  | nil =>
    obtain rfl := Option.some_inj.mp processed
    exact wraps
  | cons grapheme graphemes ih =>
    rw [map_cons, foldlM_cons] at processed
    obtain ⟨middle, first, rest⟩ := Option.bind_eq_some_iff.mp processed
    have wrapsMiddle := wraps.processGraphemeInfo (fromCells grapheme mem_cons_self).wide first
    exact ih wrapsMiddle (fun later member => fromCells later (mem_cons_of_mem _ member)) rest

theorem Wraps.rebuildRow {oldStart row : ℕ} {textRow : TextRow} (indexes : oldIndex.Indexes oldStart rows)
    (atRow : rows[row]? = some textRow) (fromCells : textRow.FromCells) (wraps : Wraps columns start wrapping state)
    (rebuilt : oldIndex.rebuildRow debugAssertions state row = some next) :
    Wraps columns start (wrapping.addRow columns textRow) next := by
  have lengths : oldIndex.rows.length = rows.length := indexes.length_eq
  obtain ⟨inside, -⟩ := List.getElem?_eq_some_iff.mp atRow
  have atEntry := List.getElem?_eq_getElem (l := oldIndex.rows) (i := row) (by omega)
  obtain ⟨-, newline, -⟩ := indexes.getElem atEntry atRow
  unfold Index.rebuildRow Index.getEntry at rebuilt
  rw [Index.graphemeInfosForRow_eq indexes atRow, atEntry, Option.getD_some] at rebuilt
  obtain ⟨⟨builder, index⟩, processed, ended⟩ := Option.bind_eq_some_iff.mp rebuilt
  have wrapsGraphemes := wraps.foldlM_processGraphemeInfo fromCells processed
  simp only [Option.bind_eq_bind, Option.bind_some, newline] at ended
  unfold Wrapping.addRow
  cases isNewline : textRow.newline with
  | false =>
    rw [isNewline] at ended
    obtain rfl := Option.some_inj.mp ended
    exact wrapsGraphemes
  | true =>
    rw [isNewline] at ended
    obtain ⟨sameColumns, indexesRows, builds, -, -⟩ := wrapsGraphemes
    obtain rfl := Option.some_inj.mp ended
    obtain ⟨appended, kept⟩ := EntryBuilder.appendToIndex_spec indexesRows
      (@EntryBuilder.Builds.addTrailingNewline _ ⟨_, false⟩ builds)
    exact ⟨kept.trans sameColumns, appended, EntryBuilder.builds_new, rfl, rfl⟩

theorem Wraps.rebuildRows {oldStart : ℕ} (indexes : oldIndex.Indexes oldStart rows)
    (fromCells : ∀ row ∈ rows, row.FromCells) (wraps : Wraps columns start wrapping state) (count : ℕ)
    (inside : count ≤ rows.length)
    (rebuilt : (List.range count).foldlM (oldIndex.rebuildRow debugAssertions) state = some next) :
    Wraps columns start ((rows.take count).foldl (Wrapping.addRow columns) wrapping) next := by
  induction count generalizing next with
  | zero =>
    obtain rfl := Option.some_inj.mp rebuilt
    exact wraps
  | succ count ih =>
    rw [range_succ, foldlM_append] at rebuilt
    obtain ⟨middle, earlier, last⟩ := Option.bind_eq_some_iff.mp rebuilt
    have wrapsEarlier := ih (by omega) earlier
    have atRow : rows[count]? = some rows[count] := List.getElem?_eq_getElem (by omega)
    rw [foldlM_cons] at last
    obtain ⟨built, step, done⟩ := Option.bind_eq_some_iff.mp last
    obtain rfl := Option.some_inj.mp done
    have wrapsLast := wrapsEarlier.rebuildRow indexes atRow (fromCells _ (getElem_mem _)) step
    rw [take_succ_eq_append_getElem (by omega), List.foldl_append]
    exact wrapsLast

theorem EntryBuilder.isEmpty_iff {builder : EntryBuilder} (builds : builder.Builds ⟨graphemes, false⟩)
    (spacer : builder.endsWithLeadingWideCharSpacer = false) :
    builder.isEmpty = true ↔ graphemes = [] := by
  obtain ⟨len, runs, newline⟩ := builds
  have newline : builder.hasTrailingNewline = false := newline
  unfold isEmpty
  simp only [newline, spacer, len, TextRow.byteLen, Bool.toNat_false, Nat.add_zero, Bool.not_false, Bool.and_true,
    Bool.and_eq_true, beq_iff_eq, List.isEmpty_iff]
  constructor
  · intro empty
    rw [empty.2] at runs
    exact List.map_eq_nil_iff.mp runs.symm
  · intro empty
    subst empty
    refine ⟨rfl, ?_⟩
    by_contra nonempty
    exact expand_ne_nil nonempty runs

theorem Index.rebuild_spec {newIndex : Index} (indexes : oldIndex.Indexes start rows)
    (fromCells : ∀ row ∈ rows, row.FromCells) (rebuilt : oldIndex.rebuild debugAssertions columns = some newIndex) :
    newIndex.Indexes (if rows = [] then 0 else start) (rewrap columns rows) ∧ newIndex.columns = columns := by
  unfold Index.rebuild at rebuilt
  obtain ⟨⟨builder, index⟩, looped, finished⟩ := Option.bind_eq_some_iff.mp rebuilt
  obtain rfl := Option.some_inj.mp finished
  have firstOffset : (oldIndex.contentOffsetForRow 0).getD 0 = if rows = [] then 0 else start := by
    rw [Index.contentOffsetForRow_eq indexes]
    cases rows with
    | nil => rfl
    | cons row rows => rfl
  rw [firstOffset] at looped
  have begun : Wraps columns (if rows = [] then 0 else start) ⟨[], [], 0⟩
      ({}, { Index.new columns with contentLen := if rows = [] then 0 else start }) :=
    ⟨rfl, .nil _, EntryBuilder.builds_new, rfl, rfl⟩
  have lengths : oldIndex.len = rows.length := indexes.length_eq
  rw [lengths] at looped
  obtain ⟨sameColumns, indexesRows, builds, -, spacer⟩ := begun.rebuildRows indexes fromCells rows.length (le_refl _) looped
  rw [take_length] at indexesRows builds
  unfold EntryBuilder.appendToIndexIfNonempty rewrap Wrapping.finish
  by_cases empty : (rows.foldl (Wrapping.addRow columns) ⟨[], [], 0⟩).current = []
  · rw [if_pos ((EntryBuilder.isEmpty_iff builds spacer).mpr empty), if_pos empty]
    exact ⟨indexesRows, sameColumns⟩
  · rw [if_neg fun isEmpty => empty ((EntryBuilder.isEmpty_iff builds spacer).mp isEmpty), if_neg empty]
    obtain ⟨appended, kept⟩ := EntryBuilder.appendToIndex_spec indexesRows builds
    exact ⟨appended, kept.trans sameColumns⟩

end Rebuild

section Graphemes

variable {columns : ℕ} {wrapping : Wrapping}

def Wrapping.FromCells (wrapping : Wrapping) : Prop :=
  (∀ row ∈ wrapping.rows, row.FromCells) ∧ ∀ grapheme ∈ wrapping.current, grapheme.FromCell

variable {rows : List TextRow}

theorem TextRow.fromCells_snoc {row : TextRow} (earlier : ∀ row ∈ rows, row.FromCells) (last : row.FromCells) :
    ∀ other ∈ rows ++ [row], other.FromCells := by
  intro other member
  rcases List.mem_append.mp member with member | member
  · exact earlier other member
  · obtain rfl := List.mem_singleton.mp member
    exact last

theorem Wrapping.FromCells.add (fromCells : wrapping.FromCells) {grapheme : Grapheme} (added : grapheme.FromCell) :
    (wrapping.add columns grapheme).FromCells := by
  obtain ⟨rows, current⟩ := fromCells
  by_cases full : wrapping.width + grapheme.info.cellWidth > columns
  · have wrapped : wrapping.add columns grapheme =
        ⟨wrapping.rows ++ [⟨wrapping.current, false⟩], [grapheme], grapheme.info.cellWidth⟩ := if_pos full
    rw [wrapped]
    refine ⟨TextRow.fromCells_snoc rows current, ?_⟩
    intro other member
    obtain rfl := List.mem_singleton.mp member
    exact added
  · have kept : wrapping.add columns grapheme =
        ⟨wrapping.rows, wrapping.current ++ [grapheme], wrapping.width + grapheme.info.cellWidth⟩ := if_neg full
    rw [kept]
    refine ⟨rows, ?_⟩
    intro other member
    rcases List.mem_append.mp member with member | member
    · exact current other member
    · obtain rfl := List.mem_singleton.mp member
      exact added

theorem Wrapping.FromCells.foldl_add {graphemes : List Grapheme} (fromCells : wrapping.FromCells)
    (added : ∀ grapheme ∈ graphemes, grapheme.FromCell) : (graphemes.foldl (Wrapping.add columns) wrapping).FromCells := by
  induction graphemes generalizing wrapping with
  | nil => exact fromCells
  | cons grapheme graphemes ih =>
    have first := @Wrapping.FromCells.add columns _ fromCells _ (added grapheme mem_cons_self)
    exact ih first fun later member => added later (mem_cons_of_mem _ member)

theorem Wrapping.FromCells.addRow {row : TextRow} (fromCells : wrapping.FromCells) (added : row.FromCells) :
    (wrapping.addRow columns row).FromCells := by
  have graphemes := @Wrapping.FromCells.foldl_add columns _ _ fromCells added
  unfold Wrapping.addRow
  cases row.newline with
  | false => exact graphemes
  | true => exact ⟨TextRow.fromCells_snoc graphemes.1 graphemes.2, fun _ member => absurd member not_mem_nil⟩

theorem fromCells_rewrap (columns : ℕ) (fromCells : ∀ row ∈ rows, row.FromCells) :
    ∀ row ∈ rewrap columns rows, row.FromCells := by
  have folded : ∀ (rows : List TextRow) (wrapping : Wrapping), wrapping.FromCells → (∀ row ∈ rows, row.FromCells) →
      (rows.foldl (Wrapping.addRow columns) wrapping).FromCells := by
    intro rows
    induction rows with
    | nil => exact fun _ fromCells _ => fromCells
    | cons row rows ih =>
      intro wrapping fromCells added
      exact ih _ (fromCells.addRow (added row mem_cons_self))
        fun later member => added later (mem_cons_of_mem _ member)
  have final := folded rows ⟨[], [], 0⟩
    ⟨fun _ member => absurd member not_mem_nil, fun _ member => absurd member not_mem_nil⟩ fromCells
  unfold rewrap Wrapping.finish
  split
  · exact final.1
  · exact TextRow.fromCells_snoc final.1 final.2

end Graphemes

end Warp.Grid
