import Warp.Grid.CursorWalk

namespace Warp.Grid

open Option

theorem GraphemeRun.cellTypeAtOffset_some {run : GraphemeRun} {offset : ℕ} (inside : offset < run.cols) :
    ∃ type, run.cellTypeAtOffset offset = some type := by
  rw [cellTypeAtOffset, if_pos inside]
  split <;> exact ⟨_, rfl⟩

namespace Index

theorem cellTypeInRuns_some {col startCol : ℕ} (after : startCol ≤ col) (runs : List GraphemeRun) :
    ∃ type, cellTypeInRuns col startCol runs = some type := by
  induction runs generalizing startCol with
  | nil => exact ⟨_, rfl⟩
  | cons run runs ih =>
    rw [cellTypeInRuns]
    split
    · exact GraphemeRun.cellTypeAtOffset_some (by omega)
    · exact ih (by omega)

theorem cellType_some {index : Index} (columns : 0 < index.columns) {row : ℕ} {runs : List GraphemeRun}
    (isRuns : index.graphemeRunsForRow row = some runs) (col : ℕ) : ∃ type, index.cellType row col = some (some type) := by
  obtain ⟨entry, isEntry, sizing⟩ := Option.bind_eq_some_iff.mp isRuns
  rw [cellType, isEntry]
  obtain ⟨atSpacer, isAt⟩ : ∃ atSpacer, (if entry.endsWithLeadingWideCharSpacer then (Checked.sub index.columns 1).map (col == ·)
      else some false) = some atSpacer := by
    rw [Checked.sub_eq columns]
    split <;> exact ⟨_, rfl⟩
  dsimp only
  rw [isAt, bind_some]
  cases atSpacer with
  | true => exact ⟨_, rfl⟩
  | false =>
    rw [if_neg Bool.false_ne_true]
    cases sized : entry.graphemeSizing with
    | uniform run =>
      dsimp only
      split
      · exact ⟨_, rfl⟩
      next inside =>
        obtain ⟨type, isType⟩ := run.cellTypeAtOffset_some (Nat.lt_of_not_le inside)
        exact ⟨type, by rw [isType]; rfl⟩
    | nonUniform =>
      rw [sized] at sizing
      obtain ⟨type, isType⟩ := cellTypeInRuns_some (Nat.zero_le col) runs
      dsimp only at sizing ⊢
      rw [sizing]
      exact ⟨type, by dsimp only; rw [isType]; rfl⟩
    | emptyRow => exact ⟨_, rfl⟩

end Index

namespace GridHandler

structure Sound (grid : GridHandler) : Prop where
  columns : 0 < grid.columns
  flatColumns : grid.flatStorage.columns = grid.columns
  indexColumns : grid.flatStorage.index.columns = grid.columns
  rows : ∀ row ∈ grid.grid.rows, row.inner.length = grid.columns
  flat : ∃ start rows, grid.flatStorage.Represents start rows ∧ ∀ row ∈ rows, cellWidths row.graphemes ≤ grid.columns

variable {grid : GridHandler} {row : ℕ}

theorem storageRow_grid (later : grid.flatStorage.totalRows ≤ row) (inside : row < grid.totalRows) :
    grid.storageRow row = some (.gridStorage (row - grid.flatStorage.totalRows)) := by
  rw [storageRow, if_neg (Nat.not_le_of_lt inside), if_pos later]

theorem storageRow_flat (inFlat : row < grid.flatStorage.totalRows) : grid.storageRow row = some (.flatStorage row) := by
  have inside : row < grid.totalRows := Nat.lt_of_lt_of_le inFlat (Nat.le_add_left _ _)
  rw [storageRow, if_neg (Nat.not_le_of_lt inside), if_neg (Nat.not_le_of_lt inFlat)]

theorem Sound.gridRow (sound : grid.Sound) (later : grid.flatStorage.totalRows ≤ row) (inside : row < grid.totalRows) :
    ∃ cells, grid.grid.get (row - grid.flatStorage.totalRows) = some cells ∧ cells.inner.length = grid.columns := by
  rw [totalRows] at inside
  have bound : row - grid.flatStorage.totalRows < grid.grid.rows.length := by omega
  exact ⟨_, List.getElem?_eq_getElem bound, sound.rows _ (List.getElem_mem bound)⟩

theorem Sound.flatRow (sound : grid.Sound) (debugAssertions : Bool) (inFlat : row < grid.flatStorage.totalRows) :
    ∃ cells, grid.row debugAssertions row = some (some cells) ∧ cells.inner.length = grid.columns := by
  obtain ⟨start, rows, represents, fits⟩ := sound.flat
  have inRows : row < rows.length := by rwa [← represents.totalRows_eq]
  have positive : 0 < grid.flatStorage.columns := by
    rw [sound.flatColumns]
    exact sound.columns
  have blank : Row.new grid.flatStorage.columns = some ⟨List.replicate grid.flatStorage.columns .default, 0⟩ := if_neg (by omega)
  have resets : Row.Resets grid.flatStorage.columns ⟨List.replicate grid.flatStorage.columns .default, 0⟩ :=
    ⟨List.length_replicate, Nat.zero_le _, rfl⟩
  have atRow : rows[row]? = some rows[row] := List.getElem?_eq_getElem inRows
  have atEntry : grid.flatStorage.index.getEntry row = some grid.flatStorage.index.rows[row] := List.getElem?_eq_getElem inFlat
  have rowFits : cellWidths rows[row].graphemes ≤ grid.flatStorage.columns := by
    rw [sound.flatColumns]
    exact fits _ (List.getElem_mem inRows)
  obtain ⟨read, next, -, readResets⟩ := @RowIterator.next_spec debugAssertions _ _ _ represents positive
    ⟨grid.flatStorage, row, ⟨List.replicate grid.flatStorage.columns .default, 0⟩, .default⟩ rfl rfl resets _ _ atRow atEntry rowFits
  refine ⟨read, ?_, readResets.width.trans sound.flatColumns⟩
  rw [GridHandler.row, storageRow_flat inFlat]
  dsimp only
  rw [RowIterator.new, blank, bind_eq_bind, bind_eq_bind, bind_some, bind_some, next]
  rfl

theorem Sound.readable (sound : grid.Sound) (debugAssertions : Bool) : grid.Readable debugAssertions := by
  refine ⟨sound.columns, fun row inside => ?_, fun row inside col inColumns => ?_⟩
  · by_cases later : grid.flatStorage.totalRows ≤ row
    · obtain ⟨cells, isRow, width⟩ := sound.gridRow later inside
      exact ⟨cells, by rw [GridHandler.row, storageRow_grid later inside]; exact congrArg some isRow, width⟩
    · exact sound.flatRow debugAssertions (Nat.lt_of_not_le later)
  · by_cases later : grid.flatStorage.totalRows ≤ row
    · obtain ⟨cells, isRow, width⟩ := sound.gridRow later inside
      rw [cellType, storageRow_grid later inside]
      dsimp only
      rw [isRow, bind_some, List.getElem?_eq_getElem (by omega)]
      exact ⟨_, rfl⟩
    · obtain ⟨start, rows, represents, -⟩ := sound.flat
      have inFlat := Nat.lt_of_not_le later
      have inRows : row < rows.length := by rwa [← represents.totalRows_eq]
      have infos := Index.graphemeInfosForRow_eq represents.index (List.getElem?_eq_getElem inRows)
      obtain ⟨runs, isRuns, -⟩ := Option.map_eq_some_iff.mp infos
      rw [cellType, storageRow_flat inFlat]
      exact Index.cellType_some (by rw [sound.indexColumns]; exact sound.columns) isRuns col

end GridHandler

end Warp.Grid
