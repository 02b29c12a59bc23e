import Warp.Grid.RowRead

namespace Warp.Grid

open List

/-- A grapheme's sizing, or `none` for a hard newline. -/
abbrev Token := Option GraphemeInfo

def Token.utf8Bytes (token : Token) : ℕ := (token.map fun info => info.utf8Bytes.get).getD 1

def tokenBytes (tokens : List Token) : ℕ := (tokens.map Token.utf8Bytes).sum

namespace Index

def rowTokens (self : Index) (row : ℕ) : List Token :=
  ((self.graphemeInfosForRow row).getD []).map some ++
    if (self.getEntry row).any Entry.hasTrailingNewline then [none] else []

def tokens (self : Index) : List Token := (List.range self.len).flatMap self.rowTokens

def firstOffset (self : Index) : ℕ := (self.contentOffsetForRow 0).getD 0

/-- The same text over the same bytes, in rows that end between graphemes and fit into the columns. -/
structure Reflowed (self rebuilt : Index) (columns : ℕ) : Prop where
  sameColumns : rebuilt.columns = columns
  tokens : rebuilt.tokens = self.tokens
  contentLen : rebuilt.contentLen = self.contentLen
  ranges : ∀ row, row < rebuilt.len →
    let before := self.firstOffset + tokenBytes ((List.range row).flatMap rebuilt.rowTokens)
    rebuilt.contentRangeForRow row = some (before, before + tokenBytes (rebuilt.rowTokens row))
  width : ∀ row, row < rebuilt.len →
    ∃ infos, rebuilt.graphemeInfosForRow row = some infos ∧ (infos.map GraphemeInfo.cellWidth).sum ≤ columns

end Index

namespace EntryBuilder

def processToken (debugAssertions : Bool) (state : EntryBuilder × Index) : Token → Option (EntryBuilder × Index)
  | some info => state.1.processGraphemeInfo debugAssertions info state.2
  | none => state.1.processGrapheme debugAssertions .newline state.2

end EntryBuilder

section Tokens

variable {debugAssertions : Bool} {oldIndex newIndex : Index} {columns start : ℕ} {rows : List TextRow}

theorem Index.rebuildRow_eq {row : ℕ} (inside : row < oldIndex.len) (state : EntryBuilder × Index) :
    oldIndex.rebuildRow debugAssertions state row =
      (oldIndex.rowTokens row).foldlM (EntryBuilder.processToken debugAssertions) state := by
  have atEntry : oldIndex.getEntry row = some (oldIndex.rows[row]) := List.getElem?_eq_getElem inside
  unfold rebuildRow rowTokens
  rw [foldlM_append, foldlM_map, atEntry]
  apply bind_congr
  intro next
  by_cases newline : (oldIndex.rows[row]).hasTrailingNewline = true
  · simp [newline, EntryBuilder.processToken]
  · simp [newline]

theorem Index.rebuild_eq (oldIndex : Index) (columns : ℕ) :
    oldIndex.rebuild debugAssertions columns =
      (oldIndex.tokens.foldlM (EntryBuilder.processToken debugAssertions)
        ({}, { new columns with contentLen := oldIndex.firstOffset })).map
          fun state => state.1.appendToIndexIfNonempty state.2 := by
  have looped : ∀ count, count ≤ oldIndex.len → ∀ state,
      (List.range count).foldlM (oldIndex.rebuildRow debugAssertions) state =
        ((List.range count).flatMap oldIndex.rowTokens).foldlM (EntryBuilder.processToken debugAssertions) state := by
    intro count inside state
    induction count with
    | zero => rfl
    | succ count ih =>
      rw [range_succ, foldlM_append, flatMap_append, foldlM_append, ih (by omega)]
      apply bind_congr
      intro next
      simp [rebuildRow_eq (show count < oldIndex.len by omega)]
  unfold rebuild tokens firstOffset
  rw [← looped _ (le_refl _), Option.map_eq_bind]
  rfl

theorem Index.rebuild_congr {other : Index} (sameTokens : oldIndex.tokens = other.tokens)
    (sameOffset : oldIndex.firstOffset = other.firstOffset) (columns : ℕ) :
    oldIndex.rebuild debugAssertions columns = other.rebuild debugAssertions columns := by
  rw [rebuild_eq, rebuild_eq, sameTokens, sameOffset]

def Grapheme.token (grapheme : Grapheme) : Token := if grapheme.info.cellWidth = 0 then none else some grapheme.info

theorem Grapheme.FromCell.token_eq {grapheme : Grapheme} (fromCell : grapheme.FromCell) :
    grapheme.token = some grapheme.info := if_neg (Nat.ne_of_gt fromCell.wide)

theorem TextRow.FromCells.tokens_eq {row : TextRow} (fromCells : row.FromCells) :
    row.written.map Grapheme.token = (row.graphemes.map Grapheme.info).map some ++ if row.newline then [none] else [] := by
  have graphemes : row.graphemes.map Grapheme.token = (row.graphemes.map Grapheme.info).map some := by
    rw [List.map_map]
    apply map_congr_left
    intro grapheme member
    exact (fromCells grapheme member).token_eq
  unfold TextRow.written
  rw [map_append, graphemes]
  cases row.newline <;> rfl

section

variable (indexes : oldIndex.Indexes start rows)
include indexes

theorem Index.rowTokens_eq {i : ℕ} {row : TextRow} (atRow : rows[i]? = some row) (fromCells : row.FromCells) :
    oldIndex.rowTokens i = row.written.map Grapheme.token := by
  have lengths : oldIndex.rows.length = rows.length := indexes.length_eq
  obtain ⟨inside, -⟩ := List.getElem?_eq_some_iff.mp atRow
  have atEntry := List.getElem?_eq_getElem (l := oldIndex.rows) (i := i) (by omega)
  obtain ⟨-, newline, -⟩ := indexes.getElem atEntry atRow
  unfold rowTokens getEntry
  rw [graphemeInfosForRow_eq indexes atRow, atEntry, fromCells.tokens_eq, Option.any_some, newline]
  rfl

theorem Index.tokens_take (fromCells : ∀ row ∈ rows, row.FromCells) {count : ℕ} (inside : count ≤ rows.length) :
    (List.range count).flatMap oldIndex.rowTokens = (written (rows.take count)).map Grapheme.token := by
  induction count with
  | zero => rfl
  | succ count ih =>
    have atRow : rows[count]? = some rows[count] := List.getElem?_eq_getElem (by omega)
    have last := rowTokens_eq indexes atRow (fromCells _ (getElem_mem _))
    rw [range_succ, flatMap_append, ih (by omega), flatMap_singleton, last,
      take_succ_eq_append_getElem (by omega), written_append, written_cons, written_nil, append_nil,
      map_append]

theorem Index.tokens_eq (fromCells : ∀ row ∈ rows, row.FromCells) :
    oldIndex.tokens = (written rows).map Grapheme.token := by
  have lengths : oldIndex.len = rows.length := indexes.length_eq
  have all := tokens_take indexes fromCells (le_refl _)
  rw [take_length] at all
  unfold tokens
  rw [lengths, all]

theorem Index.firstOffset_eq :
    oldIndex.firstOffset = if rows = [] then 0 else start := by
  unfold firstOffset
  rw [contentOffsetForRow_eq indexes]
  cases rows with
  | nil => rfl
  | cons row rows => rfl

theorem Index.rebuild_rebuild {first second : ℕ} (fromCells : ∀ row ∈ rows, row.FromCells)
    (rebuilt : oldIndex.rebuild debugAssertions first = some newIndex) (kept : newIndex.rows ≠ [] ∨ start = 0) :
    newIndex.rebuild debugAssertions second = oldIndex.rebuild debugAssertions second := by
  obtain ⟨newIndexes, -⟩ := rebuild_spec indexes fromCells rebuilt
  apply rebuild_congr
  · rw [tokens_eq newIndexes (fromCells_rewrap first fromCells), tokens_eq indexes fromCells, written_rewrap]
  · rw [firstOffset_eq newIndexes, firstOffset_eq indexes]
    by_cases none : rewrap first rows = []
    · have noRows : newIndex.rows = [] := by
        apply eq_nil_of_length_eq_zero
        rw [newIndexes.length_eq, none, length_nil]
      rw [if_pos none]
      have atZero := kept.resolve_left (fun some => some noRows)
      rw [atZero, ite_self]
    · rw [if_neg none]

end

end Tokens

section Width

variable {columns : ℕ} {rows : List TextRow}

def Narrow (graphemes : List Grapheme) : Prop := ∀ grapheme ∈ graphemes, grapheme.info.cellWidth ≤ 2

structure Wrapping.Fits (columns : ℕ) (wrapping : Wrapping) : Prop where
  rows : ∀ row ∈ wrapping.rows, cellWidths row.graphemes ≤ columns
  current : cellWidths wrapping.current = wrapping.width
  width : wrapping.width ≤ columns

variable {wrapping : Wrapping}

theorem Wrapping.Fits.complete (fits : wrapping.Fits columns) (newline : Bool) :
    ∀ row ∈ wrapping.rows ++ [⟨wrapping.current, newline⟩], cellWidths row.graphemes ≤ columns := by
  intro row member
  rcases List.mem_append.mp member with member | member
  · exact fits.rows row member
  · rw [List.mem_singleton.mp member]
    exact le_of_eq_of_le fits.current fits.width

theorem Wrapping.Fits.add {wrapping : Wrapping} (fits : wrapping.Fits columns) {grapheme : Grapheme}
    (narrow : grapheme.info.cellWidth ≤ columns) : (wrapping.add columns grapheme).Fits columns := by
  unfold Wrapping.add
  by_cases full : wrapping.width + grapheme.info.cellWidth > columns
  · rw [if_pos full]
    exact ⟨fits.complete false, by simp [cellWidths], narrow⟩
  · rw [if_neg full]
    refine ⟨fits.rows, ?_, Nat.le_of_not_lt full⟩
    have current := fits.current
    unfold cellWidths at current ⊢
    rw [map_append, List.sum_append, current]
    simp

theorem Wrapping.Fits.foldl_add {graphemes : List Grapheme} (room : 2 ≤ columns) (narrow : Narrow graphemes)
    {wrapping : Wrapping} (fits : wrapping.Fits columns) :
    (graphemes.foldl (Wrapping.add columns) wrapping).Fits columns := by
  induction graphemes generalizing wrapping with
  | nil => exact fits
  | cons grapheme graphemes ih =>
    apply ih (fun later member => narrow later (mem_cons_of_mem _ member))
    exact fits.add (Nat.le_trans (narrow grapheme mem_cons_self) room)

theorem Wrapping.Fits.addRow {row : TextRow} (room : 2 ≤ columns) (narrow : Narrow row.graphemes)
    (fits : wrapping.Fits columns) : (wrapping.addRow columns row).Fits columns := by
  have graphemes := fits.foldl_add room narrow
  unfold Wrapping.addRow
  cases row.newline with
  | false => exact graphemes
  | true => exact ⟨graphemes.complete true, rfl, Nat.zero_le _⟩

theorem Wrapping.Fits.foldl_addRow (room : 2 ≤ columns) (narrow : ∀ row ∈ rows, Narrow row.graphemes)
    (fits : wrapping.Fits columns) :
    (rows.foldl (Wrapping.addRow columns) wrapping).Fits columns := by
  induction rows generalizing wrapping with
  | nil => exact fits
  | cons row rows ih =>
    apply ih (fun later member => narrow later (mem_cons_of_mem _ member))
    exact fits.addRow room (narrow row mem_cons_self)

theorem cellWidths_rewrap (room : 2 ≤ columns) (narrow : ∀ row ∈ rows, Narrow row.graphemes) :
    ∀ row ∈ rewrap columns rows, cellWidths row.graphemes ≤ columns := by
  have begun : Wrapping.Fits columns ⟨[], [], 0⟩ := ⟨fun _ member => absurd member not_mem_nil, rfl, Nat.zero_le _⟩
  have fits := begun.foldl_addRow room narrow
  unfold rewrap Wrapping.finish
  split
  · exact fits.rows
  · exact fits.complete false

theorem Cell.grapheme_narrow (cell : Cell) : cell.grapheme.info.cellWidth ≤ 2 := by
  unfold Cell.grapheme
  cases made : Grapheme.newFromCell cell with
  | none => decide
  | some grapheme =>
    obtain ⟨bytes, -, same⟩ := Option.bind_eq_some_iff.mp made
    obtain rfl := Option.some_inj.mp same
    have flag := Bool.toNat_le (cell.flags.contains .wideChar)
    show 1 + (cell.flags.contains .wideChar).toNat ≤ 2
    omega

theorem Line.addCell_narrow {line : Line} (narrow : Narrow line.graphemes) (cell : Cell) :
    Narrow (line.addCell cell).graphemes := by
  unfold Line.addCell
  split
  · exact narrow
  · split
    · intro grapheme member
      rcases List.mem_append.mp member with member | member
      · rcases List.mem_append.mp member with member | member
        · exact narrow grapheme member
        · rw [eq_of_mem_replicate member]
          decide
      · rw [List.mem_singleton.mp member]
        exact cell.grapheme_narrow
    · exact narrow

theorem Line.foldl_addCell_narrow (cells : List Cell) {line : Line} (narrow : Narrow line.graphemes) :
    Narrow (cells.foldl Line.addCell line).graphemes := by
  induction cells generalizing line with
  | nil => exact narrow
  | cons cell cells ih => exact ih (addCell_narrow narrow cell)

theorem textRows_narrow (columns : ℕ) (fgColor : Color) (bgAndStyle : BgAndStyle) (rows : List Row) :
    ∀ row ∈ textRows columns fgColor bgAndStyle rows, Narrow row.graphemes := by
  induction rows generalizing fgColor bgAndStyle with
  | nil => exact fun _ member => absurd member not_mem_nil
  | cons row rows ih =>
    intro textRow member
    rcases List.mem_cons.mp member with rfl | member
    · exact Line.foldl_addCell_narrow _ fun _ member => absurd member not_mem_nil
    · exact ih _ _ textRow member

end Width

section Ranges

variable {index : Index} {start : ℕ} {rows : List TextRow}

theorem tokenBytes_append (left right : List Token) : tokenBytes (left ++ right) = tokenBytes left + tokenBytes right := by
  unfold tokenBytes
  rw [map_append, List.sum_append]

theorem TextRow.FromCells.tokenBytes_written {row : TextRow} (fromCells : row.FromCells) :
    tokenBytes (row.written.map Grapheme.token) = row.byteLen := by
  have graphemes : tokenBytes ((row.graphemes.map Grapheme.info).map some) = Warp.Grid.byteLen row.graphemes := by
    unfold tokenBytes Warp.Grid.byteLen
    rw [List.map_map, List.map_map]
    rfl
  unfold TextRow.byteLen
  rw [fromCells.tokens_eq, tokenBytes_append, graphemes]
  cases row.newline <;> rfl

theorem tokenBytes_written (fromCells : ∀ row ∈ rows, row.FromCells) :
    tokenBytes ((written rows).map Grapheme.token) = byteLen (written rows) := by
  induction rows with
  | nil => rfl
  | cons row rows ih =>
    rw [written_cons, map_append, tokenBytes_append, (fromCells row mem_cons_self).tokenBytes_written,
      ih fun later member => fromCells later (mem_cons_of_mem _ member), byteLen_append, TextRow.byteLen_written]

theorem Index.contentRangeForRow_eq (indexes : index.Indexes start rows) (fromCells : ∀ row ∈ rows, row.FromCells)
    {row : ℕ} (inside : row < index.len) :
    let before := start + tokenBytes ((List.range row).flatMap index.rowTokens)
    index.contentRangeForRow row = some (before, before + tokenBytes (index.rowTokens row)) := by
  have lengths : index.len = rows.length := indexes.length_eq
  have earlier : ∀ other ∈ rows.take row, other.FromCells := fun other member =>
    fromCells other (mem_of_mem_take member)
  have atRow : rows[row]? = some rows[row] := List.getElem?_eq_getElem (by omega)
  have own := fromCells rows[row] (getElem_mem _)
  have range := offset_or_len indexes (row + 1)
  intro before
  have beforeEq : before = start + byteLen (written (rows.take row)) := by
    show start + tokenBytes _ = _
    rw [tokens_take indexes fromCells (by omega), tokenBytes_written earlier]
  unfold contentRangeForRow
  rw [beforeEq, range, contentOffsetForRow_eq indexes, if_pos (by omega), rowTokens_eq indexes atRow own,
    own.tokenBytes_written, take_succ_eq_append_getElem (by omega), written_append, byteLen_append, written_cons,
    written_nil, append_nil, TextRow.byteLen_written, Nat.add_assoc]
  rfl

theorem Index.rebuild_reflowed {debugAssertions : Bool} {columns : ℕ} {newIndex : Index}
    (indexes : index.Indexes start rows) (fromCells : ∀ row ∈ rows, row.FromCells)
    (narrow : ∀ row ∈ rows, Narrow row.graphemes) (room : 2 ≤ columns) (nonempty : rows ≠ [] ∨ start = 0)
    (rebuilt : index.rebuild debugAssertions columns = some newIndex) : index.Reflowed newIndex columns := by
  obtain ⟨newIndexes, sameColumns⟩ := rebuild_spec indexes fromCells rebuilt
  have newFromCells := fromCells_rewrap columns fromCells
  have sameStart : (if rows = [] then 0 else start) = start := by
    by_cases empty : rows = []
    · rw [if_pos empty, nonempty.resolve_left (fun some => some empty)]
    · rw [if_neg empty]
  have first := (firstOffset_eq indexes).trans sameStart
  rw [sameStart] at newIndexes
  have lengths : newIndex.len = (rewrap columns rows).length := newIndexes.length_eq
  refine ⟨sameColumns, ?_, ?_, ?_, ?_⟩
  · rw [tokens_eq newIndexes newFromCells, tokens_eq indexes fromCells, written_rewrap]
  · rw [contentLen_eq newIndexes, contentLen_eq indexes, written_rewrap]
  · intro row inside
    rw [first]
    exact contentRangeForRow_eq newIndexes newFromCells inside
  · intro row inside
    have atRow : (rewrap columns rows)[row]? = some (rewrap columns rows)[row] := List.getElem?_eq_getElem (by omega)
    have fits := cellWidths_rewrap room narrow _ (getElem_mem (by omega : row < (rewrap columns rows).length))
    refine ⟨_, graphemeInfosForRow_eq newIndexes atRow, ?_⟩
    rw [List.map_map]
    exact fits

end Ranges

section Returns

variable {debugAssertions : Bool} {columns : ℕ} {state : EntryBuilder × Index}

theorem EntryBuilder.pushInfo_returns (info : GraphemeInfo) {runs : List GraphemeRun}
    (room : (expand runs).length + 1 < 2 ^ 16) : ∃ next, pushInfo info runs = some next := by
  induction runs with
  | nil => exact ⟨_, rfl⟩
  | cons run rest ih =>
    have count : (expand (run :: rest)).length = run.count.get + (expand rest).length := by
      simp [expand, GraphemeRun.infos]
    rw [count] at room
    cases rest with
    | nil =>
      unfold pushInfo
      by_cases same : run.info = info
      · have inRange : 0 < run.count.get + 1 ∧ run.count.get + 1 < 2 ^ 16 := ⟨Nat.succ_pos _, by omega⟩
        rw [if_pos same, NonZeroU16.new, dif_pos inRange]
        exact ⟨_, rfl⟩
      · rw [if_neg same]
        exact ⟨_, rfl⟩
    | cons second rest =>
      obtain ⟨next, pushed⟩ := ih (by omega)
      refine ⟨run :: next, ?_⟩
      unfold pushInfo
      rw [pushed]
      rfl

/-- The row being built has no more graphemes than cells, and no more cells than there are columns. -/
structure Ready (columns : ℕ) (state : EntryBuilder × Index) : Prop where
  sameColumns : state.2.columns = columns
  graphemes : (expand state.1.graphemeRuns).length ≤ state.1.numCells
  cells : state.1.numCells ≤ columns

theorem Ready.wrap (ready : Ready columns state) {cellWidth : ℕ} (room : cellWidth ≤ columns) :
    Ready columns (state.1.wrap cellWidth state.2) ∧
      (state.1.wrap cellWidth state.2).1.numCells + cellWidth ≤ columns := by
  obtain ⟨sameColumns, graphemes, cells⟩ := ready
  unfold EntryBuilder.wrap
  by_cases full : state.1.numCells + cellWidth > columns
  · rw [sameColumns, if_pos full]
    refine ⟨⟨?_, le_refl _, Nat.zero_le _⟩, by simpa using room⟩
    exact sameColumns
  · rw [sameColumns, if_neg full]
    exact ⟨⟨sameColumns, graphemes, cells⟩, Nat.le_of_not_lt full⟩

theorem Ready.processToken (ready : Ready columns state) (room : 2 ≤ columns) (small : columns < 2 ^ 16) {token : Token}
    (narrow : ∀ info ∈ token, 0 < info.cellWidth ∧ info.cellWidth ≤ 2) :
    ∃ next, EntryBuilder.processToken debugAssertions state token = some next ∧ Ready columns next := by
  cases token with
  | none => exact ⟨_, rfl, ready.sameColumns, le_refl _, Nat.zero_le _⟩
  | some info =>
    obtain ⟨wide, narrow⟩ := narrow info rfl
    obtain ⟨wrapped, fits⟩ := ready.wrap (Nat.le_trans narrow room)
    have graphemes := wrapped.graphemes
    obtain ⟨runs, pushed⟩ := EntryBuilder.pushInfo_returns info
      (show (expand (state.1.wrap info.cellWidth state.2).1.graphemeRuns).length + 1 < 2 ^ 16 by omega)
    have asserted : (debugAssertions && decide (info.cellWidth > 2)) = false := by
      rw [decide_eq_false (by omega), Bool.and_false]
    unfold EntryBuilder.processToken EntryBuilder.processGraphemeInfo EntryBuilder.processGraphemeInfoUnchecked
    dsimp only
    rw [if_neg (by omega), asserted, if_neg Bool.false_ne_true, pushed]
    refine ⟨_, rfl, wrapped.sameColumns, ?_, fits⟩
    dsimp only
    rw [EntryBuilder.pushInfo_expand pushed, length_append, length_singleton]
    omega

theorem Ready.processTokens {tokens : List Token} (ready : Ready columns state) (room : 2 ≤ columns)
    (small : columns < 2 ^ 16) (narrow : ∀ token ∈ tokens, ∀ info ∈ token, 0 < info.cellWidth ∧ info.cellWidth ≤ 2) :
    ∃ next, tokens.foldlM (EntryBuilder.processToken debugAssertions) state = some next := by
  induction tokens generalizing state with
  | nil => exact ⟨state, rfl⟩
  | cons token tokens ih =>
    obtain ⟨middle, processed, readyMiddle⟩ := @Ready.processToken debugAssertions _ _ ready room small token
      (narrow token mem_cons_self)
    obtain ⟨next, rest⟩ := ih readyMiddle fun later member => narrow later (mem_cons_of_mem _ member)
    refine ⟨next, ?_⟩
    rw [foldlM_cons, processed]
    exact rest

theorem Index.rebuild_returns (debugAssertions : Bool) {index : Index} {start : ℕ} {rows : List TextRow}
    (indexes : index.Indexes start rows)
    (fromCells : ∀ row ∈ rows, row.FromCells) (narrow : ∀ row ∈ rows, Narrow row.graphemes) (room : 2 ≤ columns)
    (small : columns < 2 ^ 16) : ∃ newIndex, index.rebuild debugAssertions columns = some newIndex := by
  have begun : Ready columns ({}, { new columns with contentLen := index.firstOffset }) :=
    ⟨rfl, le_refl _, Nat.zero_le _⟩
  have narrowTokens : ∀ token ∈ index.tokens, ∀ info ∈ token, 0 < info.cellWidth ∧ info.cellWidth ≤ 2 := by
    intro token member info infoEq
    rw [tokens_eq indexes fromCells] at member
    obtain ⟨grapheme, inWritten, rfl⟩ := List.mem_map.mp member
    obtain ⟨row, inRows, inRow⟩ := List.mem_flatMap.mp inWritten
    rcases List.mem_append.mp inRow with inGraphemes | newline
    · have fromCell := fromCells row inRows grapheme inGraphemes
      rw [fromCell.token_eq] at infoEq
      obtain rfl := Option.some_inj.mp infoEq
      exact ⟨fromCell.wide, narrow row inRows grapheme inGraphemes⟩
    · have isNewline : grapheme = .newline := by
        split at newline
        · exact List.mem_singleton.mp newline
        · cases newline
      rw [isNewline] at infoEq
      cases infoEq
  obtain ⟨final, looped⟩ := @Ready.processTokens debugAssertions _ _ _ begun room small narrowTokens
  rw [rebuild_eq, looped]
  exact ⟨_, rfl⟩

end Returns

section Built

variable {debugAssertions : Bool}

theorem FlatStorage.pushRows_represents (batches : List (List Row)) {storage final : FlatStorage} {rows : List TextRow}
    (represents : storage.Represents 0 rows) (narrow : ∀ row ∈ rows, Narrow row.graphemes)
    (pushed : batches.foldlM (pushRowsWithoutTruncation debugAssertions) storage = some final) :
    ∃ finalRows, final.Represents 0 finalRows ∧ ∀ row ∈ finalRows, Narrow row.graphemes := by
  induction batches generalizing storage rows with
  | nil =>
    obtain rfl := Option.some_inj.mp pushed
    exact ⟨rows, represents, narrow⟩
  | cons batch batches ih =>
    rw [foldlM_cons] at pushed
    obtain ⟨middle, first, rest⟩ := Option.bind_eq_some_iff.mp pushed
    have representsMiddle := (pushRowsInternal_spec represents first).1
    apply ih representsMiddle _ rest
    intro row member
    rcases List.mem_append.mp member with member | member
    · exact narrow row member
    · exact textRows_narrow _ _ _ _ row member

/-- The index of a storage that rows were pushed into does not remember the widths it was rebuilt at; a rebuilt one has
    the same text in rows that fit, and there is one for every width that a run can count. -/
theorem FlatStorage.rebuild_forgets (debugAssertions : Bool) (columns : ℕ) (maxRows : Option ℕ)
    (batches : List (List Row)) (storage : FlatStorage)
    (pushed : batches.foldlM (pushRowsWithoutTruncation debugAssertions) (new columns maxRows) = some storage)
    (first second : ℕ) (room : 2 ≤ second) :
    (∀ middle, storage.index.rebuild debugAssertions first = some middle →
      middle.rebuild debugAssertions second = storage.index.rebuild debugAssertions second) ∧
    (∀ rebuilt, storage.index.rebuild debugAssertions second = some rebuilt → storage.index.Reflowed rebuilt second) ∧
    (second < 2 ^ 16 → ∃ rebuilt, storage.index.rebuild debugAssertions second = some rebuilt) := by
  obtain ⟨rows, represents, narrow⟩ := pushRows_represents batches (represents_new columns maxRows)
    (fun _ member => absurd member not_mem_nil) pushed
  refine ⟨?_, ?_, ?_⟩
  · intro middle rebuilt
    exact Index.rebuild_rebuild represents.index represents.fromCells rebuilt (Or.inr rfl)
  · intro rebuilt rebuiltEq
    exact Index.rebuild_reflowed represents.index represents.fromCells narrow room (Or.inr rfl) rebuiltEq
  · intro small
    exact Index.rebuild_returns debugAssertions represents.index represents.fromCells narrow room small

theorem FlatStorage.rebuild_forgets_sample :
    ∃ storage, [StorageCall.sampleRows, StorageCall.sampleRows].foldlM (pushRowsWithoutTruncation true) (new 3 none) =
        some storage ∧
      (∀ middle, storage.index.rebuild true 2 = some middle → middle.rebuild true 4 = storage.index.rebuild true 4) ∧
      ∃ rebuilt, storage.index.rebuild true 4 = some rebuilt ∧ storage.index.Reflowed rebuilt 4 := by
  cases pushed : [StorageCall.sampleRows, StorageCall.sampleRows].foldlM (pushRowsWithoutTruncation true) (new 3 none) with
  | none =>
    have returns : ([StorageCall.sampleRows, StorageCall.sampleRows].foldlM (pushRowsWithoutTruncation true)
      (new 3 none)).isSome = true := by decide +kernel
    rw [pushed] at returns
    cases returns
  | some storage =>
    obtain ⟨forgets, reflows, returns⟩ := rebuild_forgets true 3 none _ storage pushed 2 4 (by decide)
    obtain ⟨rebuilt, rebuiltEq⟩ := returns (by decide)
    exact ⟨storage, rfl, forgets, rebuilt, rebuiltEq, reflows rebuilt rebuiltEq⟩

end Built

section Wide

def letterRow : Row := ⟨[{ Cell.default with c := 'a', flags := .wrapline }], 1⟩

def letter : Grapheme := ⟨⟨1, .one⟩, .char 'a'⟩

variable {debugAssertions : Bool}

theorem Content.pushGrapheme_returns {content : Content} {start : ℕ} (covers : content.Covers start) {grapheme : Grapheme}
    (sized : grapheme.Sized) (small : grapheme.len < chunkSize) : ∃ next, content.pushGrapheme grapheme = some next := by
  obtain ⟨⟨-, room, -⟩, -, -⟩ := rollChunk_spec covers small
  have length : grapheme.content.bytes.length = grapheme.len := sized
  have fits : (content.rollChunk grapheme.len).activeChunk.len + grapheme.content.bytes.length ≤ chunkSize := by
    rw [length]
    unfold rollChunk
    split
    · show 0 + grapheme.len ≤ chunkSize
      omega
    · omega
  unfold pushGrapheme Chunk.pushCharOrStr
  rw [if_pos small]
  simp only [Option.bind_eq_bind, dif_pos fits]
  exact ⟨_, rfl⟩

theorem Pushing.pushRow_letter {pushing : Pushing} {rows : List TextRow} (represents : pushing.storage.Represents 0 rows)
    (columns : pushing.storage.columns = 1) (fgColor : pushing.fgColor = .named .foreground)
    (bgAndStyle : pushing.bgAndStyle = .default) :
    ∃ next, pushing.pushRow debugAssertions letterRow = some next := by
  have sized : letter.Sized := rfl
  obtain ⟨content, stored⟩ := Content.pushGrapheme_returns represents.content.covers sized (by decide)
  have cell : ∀ begun : Pushing, begun.storage = pushing.storage → begun.fgColor = .named .foreground →
      begun.bgAndStyle = .default → begun.entryBuilder = {} → begun.lastCell = -1 → begun.idx = -1 →
      ∃ next, begun.pushCell debugAssertions { Cell.default with c := 'a', flags := .wrapline } = some next ∧
        next.storage.columns = 1 := by
    intro begun sameStorage sameFg sameStyle builder lastCell idx
    have noSpacer : ¬ isSpacer { Cell.default with c := 'a', flags := .wrapline } = true := by decide
    have fg : begun.setFgColor debugAssertions { Cell.default with c := 'a', flags := .wrapline } = some begun :=
      if_pos sameFg.symm
    have style : begun.setBgAndStyle debugAssertions { Cell.default with c := 'a', flags := .wrapline } = some begun := by
      apply if_pos
      rw [sameStyle]
      decide
    have processed : needsProcessing begun.fgColor begun.bgAndStyle { Cell.default with c := 'a', flags := .wrapline } =
        true := by
      rw [sameFg, sameStyle]
      decide
    have made : Grapheme.newFromCell { Cell.default with c := 'a', flags := .wrapline } = some letter := rfl
    have kept : begun.setMarker { Cell.default with c := 'a', flags := .wrapline } = begun := rfl
    unfold pushCell
    rw [if_neg noSpacer, fg]
    simp only [Option.bind_eq_bind, Option.bind_some, style, kept, made, processed, if_true, lastCell, idx]
    unfold pushGrapheme EntryBuilder.processGraphemeInfoUnchecked
    simp only [builder, sameStorage]
    show ∃ next, (Option.bind (pushing.storage.content.pushGrapheme letter) _) = some next ∧ _
    rw [stored]
    exact ⟨_, rfl, columns⟩
  obtain ⟨ended, pushed, sameColumns⟩ := cell
    { storage := pushing.storage
      fgColor := pushing.fgColor
      bgAndStyle := pushing.bgAndStyle
      offset := pushing.storage.content.endOffset } rfl fgColor bgAndStyle rfl rfl rfl
  have wraps : rowSoftWraps 1 letterRow = some true := by decide
  unfold pushRow
  show ∃ next, Option.bind (List.foldlM (pushCell debugAssertions) _ [_]) _ = some next
  rw [foldlM_cons, pushed]
  show ∃ next, Option.bind (rowSoftWraps ended.storage.columns letterRow) _ = some next
  rw [sameColumns, wraps]
  exact ⟨_, rfl⟩

theorem Pushing.pushRows_letters (count : ℕ) {pushing : Pushing} {rows : List TextRow}
    (represents : pushing.storage.Represents 0 rows) (columns : pushing.storage.columns = 1)
    (fgColor : pushing.fgColor = .named .foreground) (bgAndStyle : pushing.bgAndStyle = .default) :
    ∃ next, (List.replicate count letterRow).foldlM (pushRow debugAssertions) pushing = some next ∧
      next.storage.Represents 0 (rows ++ List.replicate count ⟨[letter], false⟩) := by
  induction count generalizing pushing rows with
  | zero =>
    refine ⟨pushing, rfl, ?_⟩
    rw [replicate_zero, append_nil]
    exact represents
  | succ count ih =>
    obtain ⟨middle, pushed⟩ := @pushRow_letter debugAssertions _ _ represents columns fgColor bgAndStyle
    obtain ⟨grown, fg, style, sameColumns, -⟩ := pushRow_spec represents pushed
    have line : Line.ofRow pushing.fgColor pushing.bgAndStyle letterRow =
        ⟨[letter], 0, .named .foreground, .default⟩ := by
      rw [fgColor, bgAndStyle]
      rfl
    have wraps : rowSoftWraps 1 letterRow = some true := by decide
    rw [line] at grown fg style
    rw [columns, wraps] at grown
    obtain ⟨next, pushedRest, represented⟩ := ih grown (sameColumns.trans columns) fg style
    refine ⟨next, ?_, ?_⟩
    · rw [replicate_succ, foldlM_cons, pushed]
      exact pushedRest
    · rw [append_assoc] at represented
      exact represented

theorem EntryBuilder.processToken_letter {builder : EntryBuilder} {index : Index} (columns : index.columns = 2 ^ 16)
    (fits : builder.numCells + 1 ≤ 2 ^ 16) {runs : Option (List GraphemeRun)}
    (counted : pushInfo letter.info builder.graphemeRuns = runs) :
    processToken debugAssertions (builder, index) (some letter.info) = runs.map fun graphemeRuns =>
      ({ builder with numCells := builder.numCells + 1, incrContentOffset := builder.incrContentOffset + 1, graphemeRuns },
        index) := by
  have room : ¬ builder.numCells + 1 > index.columns := by
    rw [columns]
    omega
  have narrow : (debugAssertions && decide (letter.info.cellWidth > 2)) = false := Bool.and_false _
  unfold processToken processGraphemeInfo wrap processGraphemeInfoUnchecked
  dsimp only
  rw [if_neg (by decide), narrow, if_neg Bool.false_ne_true]
  rw [show letter.info.cellWidth = 1 from rfl, if_neg room, counted]
  cases runs <;> rfl

theorem EntryBuilder.processToken_letters (count : ℕ) (small : count + 1 < 2 ^ 16) (index : Index)
    (columns : index.columns = 2 ^ 16) :
    ∃ builder run, (List.replicate (count + 1) (some letter.info)).foldlM (processToken debugAssertions) ({}, index) =
        some (builder, index) ∧ builder.numCells = count + 1 ∧ builder.graphemeRuns = [run] ∧ run.info = letter.info ∧
      run.count.get = count + 1 := by
  induction count with
  | zero =>
    have processed := @processToken_letter debugAssertions {} index columns (by decide) _ rfl
    refine ⟨{ numCells := 1, incrContentOffset := 1, graphemeRuns := [⟨.one, letter.info⟩] }, ⟨.one, letter.info⟩, ?_,
      rfl, rfl, rfl, rfl⟩
    rw [replicate_one, foldlM_cons, processed]
    rfl
  | succ count ih =>
    obtain ⟨builder, run, looped, cells, runs, info, counted⟩ := ih (by omega)
    have inRange : 0 < run.count.get + 1 ∧ run.count.get + 1 < 2 ^ 16 := ⟨Nat.succ_pos _, by omega⟩
    have grown : pushInfo letter.info builder.graphemeRuns =
        some [⟨⟨run.count.get + 1, inRange.1, inRange.2⟩, run.info⟩] := by
      rw [runs]
      unfold pushInfo
      rw [if_pos info, NonZeroU16.new, dif_pos inRange]
      rfl
    have processed := @processToken_letter debugAssertions builder index columns (by omega) _ grown
    refine ⟨{ builder with
        numCells := builder.numCells + 1
        incrContentOffset := builder.incrContentOffset + 1
        graphemeRuns := [⟨⟨run.count.get + 1, inRange.1, inRange.2⟩, run.info⟩] },
      ⟨⟨run.count.get + 1, inRange.1, inRange.2⟩, run.info⟩, ?_, congrArg (· + 1) cells, rfl, info,
      congrArg (· + 1) counted⟩
    rw [replicate_succ', foldlM_append, looped]
    show Option.bind (processToken debugAssertions (builder, index) (some letter.info)) _ = _
    rw [processed]
    rfl

theorem written_letters (count : ℕ) :
    (written (List.replicate count ⟨[letter], false⟩)).map Grapheme.token = List.replicate count (some letter.info) := by
  induction count with
  | zero => rfl
  | succ count ih =>
    rw [replicate_succ, written_cons, map_append, ih]
    rfl

theorem Index.rebuild_letters_panics {index : Index} (tokens : index.tokens = List.replicate (2 ^ 16) (some letter.info)) :
    index.rebuild debugAssertions (2 ^ 16) = none := by
  obtain ⟨builder, run, looped, cells, runs, info, counted⟩ := @EntryBuilder.processToken_letters debugAssertions
    (2 ^ 16 - 2) (by decide) { new (2 ^ 16) with contentLen := index.firstOffset } rfl
  have outOfRange : ¬ (0 < run.count.get + 1 ∧ run.count.get + 1 < 2 ^ 16) := by omega
  have overflow : EntryBuilder.pushInfo letter.info builder.graphemeRuns = none := by
    rw [runs]
    unfold EntryBuilder.pushInfo
    rw [if_pos info, NonZeroU16.new, dif_neg outOfRange]
    rfl
  have processed := @EntryBuilder.processToken_letter debugAssertions builder
    { new (2 ^ 16) with contentLen := index.firstOffset } rfl (by omega) none overflow
  have letters : List.replicate (2 ^ 16) (some letter.info) =
      List.replicate (2 ^ 16 - 2 + 1) (some letter.info) ++ [some letter.info] := by
    rw [← replicate_succ', show 2 ^ 16 - 2 + 1 + 1 = 2 ^ 16 by decide]
  rw [rebuild_eq, tokens, letters, foldlM_append, looped]
  show Option.map _ (Option.bind (EntryBuilder.processToken debugAssertions (builder, _) (some letter.info)) _) = none
  rw [processed]
  rfl

/-- At a width of `2 ^ 16` a line of as many letters is one run too long, which no narrower width shows. -/
theorem FlatStorage.rebuild_wide_panics :
    ¬ ∀ (columns : ℕ) (rows : List Row) (storage : FlatStorage) (first second : ℕ), 2 ≤ first → 2 ≤ second →
      (new columns none).pushRowsWithoutTruncation true rows = some storage → 0 < storage.index.len →
      ((storage.index.rebuild true first).bind fun middle => middle.rebuild true second) =
        storage.index.rebuild true second := by
  intro claimed
  obtain ⟨pushing, pushed, represents⟩ := @Pushing.pushRows_letters true (2 ^ 16)
    { storage := new 1 none, fgColor := .named .foreground, bgAndStyle := .default } [] (represents_new 1 none) rfl rfl rfl
  rw [nil_append] at represents
  have stored : (new 1 none).pushRowsWithoutTruncation true (List.replicate (2 ^ 16) letterRow) = some pushing.storage := by
    unfold pushRowsWithoutTruncation pushRowsInternal
    show Option.bind (List.foldlM (Pushing.pushRow true) _ _) _ = _
    rw [show (⟨new 1 none, (new 1 none).fgColorMap.tail, (new 1 none).bgAndStyleMap.tail, {}, 0, -1, -1⟩ : Pushing) =
      ⟨new 1 none, .named .foreground, .default, {}, 0, -1, -1⟩ from rfl, pushed]
    rfl
  have narrow : ∀ row ∈ List.replicate (2 ^ 16) (⟨[letter], false⟩ : TextRow), Narrow row.graphemes := by
    intro row member
    rw [eq_of_mem_replicate member]
    intro grapheme single
    rw [List.mem_singleton.mp single]
    decide
  have length : 0 < pushing.storage.index.len := by
    have lengths : pushing.storage.index.rows.length = _ := represents.index.length_eq
    rw [length_replicate] at lengths
    show 0 < pushing.storage.index.rows.length
    omega
  have tokens : pushing.storage.index.tokens = List.replicate (2 ^ 16) (some letter.info) := by
    rw [Index.tokens_eq represents.index represents.fromCells]
    exact written_letters (2 ^ 16)
  obtain ⟨rebuilt, rebuiltEq⟩ := @Index.rebuild_returns 2 true _ _ _ represents.index represents.fromCells narrow
    (le_refl 2) (by decide)
  have same := claimed 1 _ pushing.storage (2 ^ 16) 2 (by decide) (le_refl 2) stored length
  rw [Index.rebuild_letters_panics tokens, rebuiltEq] at same
  cases same

end Wide

end Warp.Grid
