import Warp.Grid.ContentChunks
import Warp.Grid.FlatStorage
import Warp.Grid.Rewrap

namespace Warp.Grid

open List

namespace Content

def HoldsAll (content : Content) : ℕ → List Grapheme → Prop
  | _, [] => True
  | offset, grapheme :: graphemes =>
    content.Holds offset grapheme.bytes ∧ HoldsAll content (offset + grapheme.len) graphemes

/-- The content is the bytes of the graphemes, the first of which starts at `start`. -/
structure Stores (content : Content) (start : ℕ) (graphemes : List Grapheme) : Prop where
  covers : content.Covers start
  holds : content.HoldsAll start graphemes
  stop : content.endOffset = start + byteLen graphemes
  sized : ∀ grapheme ∈ graphemes, grapheme.Sized

variable {content next : Content} {start : ℕ} {graphemes left right : List Grapheme}

theorem HoldsAll.append {offset : ℕ} :
    content.HoldsAll offset (left ++ right) ↔
      content.HoldsAll offset left ∧ content.HoldsAll (offset + byteLen left) right := by
  induction left generalizing offset with
  | nil => simp [HoldsAll]
  | cons grapheme left ih =>
    change _ ∧ content.HoldsAll _ (left ++ right) ↔ (_ ∧ content.HoldsAll _ left) ∧ _
    rw [byteLen_cons, ← Nat.add_assoc, ih, and_assoc]

theorem HoldsAll.mono {offset stop : ℕ} (holdsAll : content.HoldsAll offset graphemes)
    (sized : ∀ grapheme ∈ graphemes, grapheme.Sized) (within : offset + byteLen graphemes ≤ stop)
    (kept : ∀ at_ bytes, content.Holds at_ bytes → offset ≤ at_ → at_ + bytes.length ≤ stop → next.Holds at_ bytes) :
    next.HoldsAll offset graphemes := by
  induction graphemes generalizing offset with
  | nil => trivial
  | cons grapheme graphemes ih =>
    obtain ⟨first, rest⟩ := holdsAll
    have length : grapheme.bytes.length = grapheme.len := sized grapheme mem_cons_self
    rw [byteLen_cons] at within
    refine ⟨kept _ _ first (le_refl _) (by omega), ?_⟩
    apply ih rest (fun later member => sized later (mem_cons_of_mem _ member)) (by omega)
    intro at_ bytes holds after before
    exact kept at_ bytes holds (by omega) before

theorem stores_new : Content.new.Stores 0 [] := ⟨covers_new, trivial, rfl, fun _ member => absurd member not_mem_nil⟩

variable {grapheme : Grapheme}

theorem Stores.pushGrapheme (stores : content.Stores start graphemes) (sized : grapheme.Sized)
    (pushed : content.pushGrapheme grapheme = some next) : next.Stores start (graphemes ++ [grapheme]) := by
  obtain ⟨covers, newEnd, newHolds, oldHolds⟩ := pushGrapheme_spec stores.covers sized pushed
  refine ⟨covers, ?_, ?_, ?_⟩
  · apply HoldsAll.append.mpr
    refine ⟨stores.holds.mono stores.sized (le_refl _) fun at_ bytes holds _ _ => oldHolds at_ bytes holds, ?_⟩
    rw [← stores.stop]
    exact ⟨newHolds, trivial⟩
  · rw [newEnd, stores.stop, byteLen_append, byteLen_cons, byteLen_nil, Nat.add_zero, Nat.add_assoc]
  · intro other member
    rcases List.mem_append.mp member with member | member
    · exact stores.sized other member
    · obtain rfl := List.mem_singleton.mp member
      exact sized

theorem Stores.truncate {debugAssertions : Bool} (stores : content.Stores start (left ++ right))
    (truncated : content.truncate debugAssertions (start + byteLen left) = some next) : next.Stores start left := by
  have sized : ∀ grapheme ∈ left, grapheme.Sized := fun grapheme member => stores.sized _ (mem_append_left _ member)
  have total := stores.stop
  rw [byteLen_append] at total
  obtain ⟨newEnd, within⟩ := truncate_spec stores.covers (Nat.le_add_right _ _) truncated
  obtain ⟨covers, kept⟩ := within (by omega)
  refine ⟨covers, ?_, newEnd, sized⟩
  exact (HoldsAll.append.mp stores.holds).1.mono sized (le_refl _) fun at_ bytes holds _ before => kept at_ bytes holds before

theorem Stores.truncateFront (stores : content.Stores start (left ++ right)) :
    (content.truncateFront (start + byteLen left)).Stores (start + byteLen left) right := by
  have sized : ∀ grapheme ∈ right, grapheme.Sized :=
    fun grapheme member => stores.sized _ (mem_append_right _ member)
  have total := stores.stop
  rw [byteLen_append] at total
  obtain ⟨covers, kept⟩ := @truncateFront_spec _ _ (start + byteLen left) stores.covers (Nat.le_add_right _ _)
    (by omega)
  refine ⟨covers, ?_, ?_, sized⟩
  · exact (HoldsAll.append.mp stores.holds).2.mono sized (le_refl _) fun at_ bytes holds after _ => kept at_ bytes holds after
  · change content.endOffset = _
    rw [total, Nat.add_assoc]

theorem Stores.slice (debugAssertions : Bool) (stores : content.Stores start (left ++ grapheme :: right)) :
    content.slice debugAssertions (start + byteLen left) (start + byteLen left + grapheme.len) = some grapheme.bytes := by
  have holds := (HoldsAll.append.mp stores.holds).2.1
  have length : grapheme.bytes.length = grapheme.len :=
    stores.sized _ (mem_append_right _ mem_cons_self)
  rw [← length]
  exact slice_eq debugAssertions stores.covers holds

end Content

def Cell.grapheme (cell : Cell) : Grapheme := (Grapheme.newFromCell cell).getD .emptyCell

/-- The text of the cells read so far; `skipped` empty ones are not in it yet. -/
structure Line where
  graphemes : List Grapheme
  skipped : ℕ
  fgColor : Color
  bgAndStyle : BgAndStyle

def Line.addCell (line : Line) (cell : Cell) : Line :=
  if Pushing.isSpacer cell then { line with skipped := 0 }
  else if Pushing.needsProcessing line.fgColor line.bgAndStyle cell then
    ⟨line.graphemes ++ List.replicate line.skipped .emptyCell ++ [cell.grapheme], 0, cell.fg, .ofCell cell⟩
  else { line with skipped := line.skipped + 1 }

def Line.ofRow (fgColor : Color) (bgAndStyle : BgAndStyle) (row : Row) : Line :=
  (row.inner.take row.occ).foldl addCell ⟨[], 0, fgColor, bgAndStyle⟩

/-- What rows of cells write, given the attributes of the cell before them. -/
def textRows (columns : ℕ) (fgColor : Color) (bgAndStyle : BgAndStyle) : List Row → List TextRow
  | [] => []
  | row :: rows =>
    let line := Line.ofRow fgColor bgAndStyle row
    ⟨line.graphemes, Pushing.rowSoftWraps columns row = some false⟩ :: textRows columns line.fgColor line.bgAndStyle rows

namespace FlatStorage

structure Represents (storage : FlatStorage) (start : ℕ) (rows : List TextRow) : Prop where
  index : storage.index.Indexes start rows
  content : storage.content.Stores start (written rows)
  fromCells : ∀ row ∈ rows, row.FromCells

end FlatStorage

namespace Pushing

variable {debugAssertions : Bool} {pushing next : Pushing} {start : ℕ} {rows : List TextRow} {line : Line}

structure SameRest (pushing next : Pushing) : Prop where
  content : next.storage.content = pushing.storage.content
  index : next.storage.index = pushing.storage.index
  columns : next.storage.columns = pushing.storage.columns
  maxRows : next.storage.maxRows = pushing.storage.maxRows
  entryBuilder : next.entryBuilder = pushing.entryBuilder
  lastCell : next.lastCell = pushing.lastCell
  offset : next.offset = pushing.offset

variable {cell : Cell}

theorem setFgColor_spec (set : pushing.setFgColor debugAssertions cell = some next) :
    SameRest pushing next ∧ next.fgColor = cell.fg ∧ next.bgAndStyle = pushing.bgAndStyle := by
  unfold setFgColor at set
  by_cases same : cell.fg = pushing.fgColor
  · rw [if_pos same] at set
    obtain rfl := Option.some_inj.mp set
    exact ⟨⟨rfl, rfl, rfl, rfl, rfl, rfl, rfl⟩, same.symm, rfl⟩
  · rw [if_neg same] at set
    obtain ⟨fgColorMap, -, made⟩ := Option.bind_eq_some_iff.mp set
    obtain rfl := Option.some_inj.mp made
    exact ⟨⟨rfl, rfl, rfl, rfl, rfl, rfl, rfl⟩, rfl, rfl⟩

theorem setBgAndStyle_spec (set : pushing.setBgAndStyle debugAssertions cell = some next) :
    SameRest pushing next ∧ next.bgAndStyle = .ofCell cell ∧ next.fgColor = pushing.fgColor := by
  unfold setBgAndStyle at set
  by_cases same : pushing.bgAndStyle = .ofCell cell
  · rw [if_pos same] at set
    obtain rfl := Option.some_inj.mp set
    exact ⟨⟨rfl, rfl, rfl, rfl, rfl, rfl, rfl⟩, same, rfl⟩
  · rw [if_neg same] at set
    obtain ⟨bgAndStyleMap, -, made⟩ := Option.bind_eq_some_iff.mp set
    obtain rfl := Option.some_inj.mp made
    exact ⟨⟨rfl, rfl, rfl, rfl, rfl, rfl, rfl⟩, rfl, rfl⟩

theorem setMarker_spec (pushing : Pushing) (cell : Cell) :
    SameRest pushing (pushing.setMarker cell) ∧ (pushing.setMarker cell).bgAndStyle = pushing.bgAndStyle ∧
      (pushing.setMarker cell).fgColor = pushing.fgColor := by
  unfold setMarker
  split <;> exact ⟨⟨rfl, rfl, rfl, rfl, rfl, rfl, rfl⟩, rfl, rfl⟩

/-- Within a row: its line so far is in the content and in the entry builder, and not in the index. -/
structure Writing (pushing : Pushing) (start : ℕ) (rows : List TextRow) (graphemes : List Grapheme) : Prop where
  index : pushing.storage.index.Indexes start rows
  content : pushing.storage.content.Stores start (written rows ++ graphemes)
  builds : pushing.entryBuilder.Builds ⟨graphemes, false⟩
  fromCells : ∀ grapheme ∈ graphemes, grapheme.FromCell

variable {graphemes : List Grapheme}

theorem Writing.sameRest (writing : Writing pushing start rows graphemes) (same : SameRest pushing next) :
    Writing next start rows graphemes := by
  refine ⟨?_, ?_, ?_, writing.fromCells⟩
  · rw [same.index]
    exact writing.index
  · rw [same.content]
    exact writing.content
  · rw [same.entryBuilder]
    exact writing.builds

theorem Writing.pushGrapheme (writing : Writing pushing start rows graphemes) {grapheme : Grapheme}
    (fromCell : grapheme.FromCell) (pushed : pushing.pushGrapheme grapheme = some next) :
    Writing next start rows (graphemes ++ [grapheme]) ∧ next.idx = pushing.idx ∧ next.lastCell = pushing.lastCell ∧
      next.fgColor = pushing.fgColor ∧ next.bgAndStyle = pushing.bgAndStyle ∧
      next.storage.columns = pushing.storage.columns ∧ next.storage.maxRows = pushing.storage.maxRows := by
  unfold Pushing.pushGrapheme at pushed
  obtain ⟨entryBuilder, processed, rest⟩ := Option.bind_eq_some_iff.mp pushed
  obtain ⟨content, stored, made⟩ := Option.bind_eq_some_iff.mp rest
  obtain rfl := Option.some_inj.mp made
  have contents := writing.content.pushGrapheme fromCell.sized stored
  rw [append_assoc] at contents
  have grown := @EntryBuilder.Builds.push _ _ ⟨graphemes, false⟩ writing.builds _ processed
  refine ⟨⟨writing.index, contents, grown.1, ?_⟩, rfl, rfl, rfl, rfl, rfl, rfl⟩
  intro other member
  rcases List.mem_append.mp member with member | member
  · exact writing.fromCells other member
  · obtain rfl := List.mem_singleton.mp member
    exact fromCell

theorem Writing.pushEmptyCells (count : ℕ) (writing : Writing pushing start rows graphemes)
    (pushed : (List.replicate count Grapheme.emptyCell).foldlM Pushing.pushGrapheme pushing = some next) :
    Writing next start rows (graphemes ++ List.replicate count Grapheme.emptyCell) ∧ next.idx = pushing.idx ∧
      next.fgColor = pushing.fgColor ∧ next.bgAndStyle = pushing.bgAndStyle ∧
      next.storage.columns = pushing.storage.columns ∧ next.storage.maxRows = pushing.storage.maxRows := by
  induction count generalizing pushing graphemes with
  | zero =>
    obtain rfl := Option.some_inj.mp pushed
    rw [replicate_zero, append_nil]
    exact ⟨writing, rfl, rfl, rfl, rfl, rfl⟩
  | succ count ih =>
    rw [replicate_succ, foldlM_cons] at pushed
    obtain ⟨middle, first, rest⟩ := Option.bind_eq_some_iff.mp pushed
    obtain ⟨writingFirst, idx, -, fg, style, columns, maxRows⟩ := writing.pushGrapheme Grapheme.fromCell_emptyCell first
    obtain ⟨writingRest, idxRest, fgRest, styleRest, columnsRest, maxRowsRest⟩ := ih writingFirst rest
    rw [append_assoc] at writingRest
    exact ⟨writingRest, idxRest.trans idx, fgRest.trans fg, styleRest.trans style, columnsRest.trans columns,
      maxRowsRest.trans maxRows⟩

structure Reads (pushing : Pushing) (start : ℕ) (rows : List TextRow) (line : Line) : Prop where
  writing : Writing pushing start rows line.graphemes
  skipped : pushing.idx - pushing.lastCell = line.skipped
  fgColor : pushing.fgColor = line.fgColor
  bgAndStyle : pushing.bgAndStyle = line.bgAndStyle

section

variable (reads : Reads pushing start rows line)
include reads

theorem pushCell_spacer (spacer : isSpacer cell = true) (pushed : pushing.pushCell debugAssertions cell = some next) :
    Reads next start rows (line.addCell cell) ∧ next.storage = pushing.storage := by
  unfold pushCell at pushed
  rw [if_pos spacer] at pushed
  obtain rfl := Option.some_inj.mp pushed
  unfold Line.addCell
  rw [if_pos spacer]
  have writing := reads.writing
  refine ⟨⟨⟨writing.index, writing.content, ?_, writing.fromCells⟩, Int.sub_self _, reads.fgColor, reads.bgAndStyle⟩, rfl⟩
  dsimp only
  split
  · exact writing.builds.addLeadingWideCharSpacer
  · exact writing.builds

theorem pushCell_spec (pushed : pushing.pushCell debugAssertions cell = some next) :
    Reads next start rows (line.addCell cell) ∧ next.storage.columns = pushing.storage.columns ∧
      next.storage.maxRows = pushing.storage.maxRows := by
  by_cases spacer : isSpacer cell = true
  · obtain ⟨nextReads, same⟩ := pushCell_spacer reads spacer pushed
    rw [same]
    exact ⟨nextReads, rfl, rfl⟩
  · unfold pushCell at pushed
    rw [if_neg spacer] at pushed
    obtain ⟨coloured, colouredEq, pushed⟩ := Option.bind_eq_some_iff.mp pushed
    obtain ⟨styled, styledEq, pushed⟩ := Option.bind_eq_some_iff.mp pushed
    obtain ⟨grapheme, made, pushed⟩ := Option.bind_eq_some_iff.mp pushed
    obtain ⟨sameColoured, newColor, keptStyle⟩ := setFgColor_spec colouredEq
    obtain ⟨sameStyled, newStyle, keptColor⟩ := setBgAndStyle_spec styledEq
    obtain ⟨sameMarked, markedStyle, markedColor⟩ := setMarker_spec styled cell
    have writing := ((reads.writing.sameRest sameColoured).sameRest sameStyled).sameRest sameMarked
    have lastCell : (styled.setMarker cell).lastCell = pushing.lastCell :=
      sameMarked.lastCell.trans (sameStyled.lastCell.trans sameColoured.lastCell)
    have columns : (styled.setMarker cell).storage.columns = pushing.storage.columns :=
      sameMarked.columns.trans (sameStyled.columns.trans sameColoured.columns)
    have maxRows : (styled.setMarker cell).storage.maxRows = pushing.storage.maxRows :=
      sameMarked.maxRows.trans (sameStyled.maxRows.trans sameColoured.maxRows)
    have skipped := reads.skipped
    unfold Line.addCell
    rw [if_neg spacer]
    dsimp only at pushed
    by_cases processed : needsProcessing pushing.fgColor pushing.bgAndStyle cell = true
    · rw [if_pos processed] at pushed
      rw [← reads.fgColor, ← reads.bgAndStyle, if_pos processed]
      have count : (pushing.idx + 1 - 1 - (styled.setMarker cell).lastCell).toNat = line.skipped := by
        rw [lastCell]
        omega
      obtain ⟨filled, filledEq, last⟩ := Option.bind_eq_some_iff.mp pushed
      rw [count] at filledEq
      have begun : Writing { styled.setMarker cell with
          idx := pushing.idx + 1, offset := (styled.setMarker cell).offset + grapheme.len } start rows line.graphemes :=
        ⟨writing.index, writing.content, writing.builds, writing.fromCells⟩
      obtain ⟨writingFilled, filledIdx, filledFg, filledStyle, filledColumns, filledMaxRows⟩ :=
        begun.pushEmptyCells line.skipped filledEq
      have ready : Writing { filled with lastCell := pushing.idx + 1 } start rows _ :=
        ⟨writingFilled.index, writingFilled.content, writingFilled.builds, writingFilled.fromCells⟩
      obtain ⟨written, idx, lastIdx, fg, style, lastColumns, lastMaxRows⟩ :=
        ready.pushGrapheme (Grapheme.newFromCell_spec made) last
      have graphemeEq : cell.grapheme = grapheme := by
        unfold Cell.grapheme
        rw [made, Option.getD_some]
      rw [graphemeEq]
      refine ⟨⟨written, ?_, ?_, ?_⟩, ?_, ?_⟩
      · rw [idx, lastIdx]
        change filled.idx - (pushing.idx + 1) = _
        rw [filledIdx]
        exact Int.sub_self _
      · exact fg.trans (filledFg.trans (markedColor.trans (keptColor.trans newColor)))
      · exact style.trans (filledStyle.trans (markedStyle.trans newStyle))
      · exact lastColumns.trans (filledColumns.trans columns)
      · exact lastMaxRows.trans (filledMaxRows.trans maxRows)
    · rw [if_neg processed] at pushed
      obtain rfl := Option.some_inj.mp pushed
      rw [← reads.fgColor, ← reads.bgAndStyle, if_neg processed]
      -- a cell that needs no processing has the attributes of the one before it
      have same : cell.fg = pushing.fgColor ∧ pushing.bgAndStyle = .ofCell cell := by
        simp only [needsProcessing, Bool.or_eq_true, not_or, bne_iff_ne, ne_eq, not_not] at processed
        exact ⟨processed.1.1.2, processed.1.2⟩
      refine ⟨⟨⟨writing.index, writing.content, writing.builds, writing.fromCells⟩, ?_, ?_, ?_⟩, columns, maxRows⟩
      · change pushing.idx + 1 - (styled.setMarker cell).lastCell = ((line.skipped + 1 : ℕ) : ℤ)
        rw [lastCell]
        omega
      · exact (markedColor.trans (keptColor.trans newColor)).trans same.1
      · exact (markedStyle.trans newStyle).trans same.2.symm

theorem pushCells_spec {cells : List Cell} (pushed : cells.foldlM (pushCell debugAssertions) pushing = some next) :
    Reads next start rows (cells.foldl Line.addCell line) ∧ next.storage.columns = pushing.storage.columns ∧
      next.storage.maxRows = pushing.storage.maxRows := by
  induction cells generalizing pushing line with
  | nil =>
    obtain rfl := Option.some_inj.mp pushed
    exact ⟨reads, rfl, rfl⟩
  | cons cell cells ih =>
    rw [foldlM_cons] at pushed
    obtain ⟨middle, first, rest⟩ := Option.bind_eq_some_iff.mp pushed
    obtain ⟨readsMiddle, columns, maxRows⟩ := pushCell_spec reads first
    obtain ⟨readsLast, lastColumns, lastMaxRows⟩ := ih readsMiddle rest
    exact ⟨readsLast, lastColumns.trans columns, lastMaxRows.trans maxRows⟩

end

end Pushing

end Warp.Grid
