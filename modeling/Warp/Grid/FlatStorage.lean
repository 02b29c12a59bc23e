import Warp.Grid.AttributeMap
import Warp.Grid.Index

namespace Warp.Grid

structure BgAndStyle where
  bg : Color
  flags : Flags
deriving DecidableEq

namespace BgAndStyle

def styleMask : Flags :=
  .inverse ||| .bold ||| .italic ||| .underline ||| .doubleUnderline ||| .dim ||| .hidden ||| .strikeout

def default : BgAndStyle := ⟨.named .background, .empty⟩

def ofCell (cell : Cell) : BgAndStyle := ⟨cell.bg, cell.flags &&& styleMask⟩

end BgAndStyle

structure EndOfPromptMarker where
  offset : ℕ
  hasExtraTrailingNewline : Bool
deriving DecidableEq

structure FlatStorage where
  content : Content
  index : Index
  columns : ℕ
  fgColorMap : AttributeMap Color
  bgAndStyleMap : AttributeMap BgAndStyle
  endOfPromptMarker : Option EndOfPromptMarker
  maxRows : Option ℕ
  numTruncatedRows : ℕ

structure Filling where
  row : Row
  currentOffset : ℕ
  fgColorIter : Iter Color
  bgAndStyleIter : Iter BgAndStyle

structure RowIterator where
  storage : FlatStorage
  rowIndex : ℕ
  row : Row
  template : Cell

namespace FlatStorage

def new (columns : ℕ) (maxRows : Option ℕ) : FlatStorage :=
  ⟨.new, .new columns, columns, .new (.named .foreground), .new .default, none, maxRows, 0⟩

def totalRows (self : FlatStorage) : ℕ := self.index.len

end FlatStorage

namespace Filling

def fillCell (storage : FlatStorage) (offset : ℕ) (c : Char) (zeroWidth : List Char) (fg : Color) (style : BgAndStyle)
    (cell : Cell) : Cell :=
  let cell := zeroWidth.foldl Cell.pushZerowidth { cell with c }
  let cell := { cell with fg, bg := style.bg, flags := style.flags }
  match storage.endOfPromptMarker with
  | some marker => if marker.offset = offset then cell.markEndOfPrompt marker.hasExtraTrailingNewline else cell
  | none => cell

def insertFlags (flags : Flags) (cell : Cell) : Cell := { cell with flags := cell.flags ||| flags }

/-- The loop over the graphemes of a row; a newline ends it. Cells past the end of the row are a panic. -/
def fill (debugAssertions : Bool) (storage : FlatStorage) : List GraphemeInfo → Filling → Option Filling
  | [], self => some self
  | info :: infos, self => do
    let bytes ← storage.content.slice debugAssertions self.currentOffset (self.currentOffset + info.utf8Bytes.get)
    let content ← String.fromUTF8? ⟨bytes.toArray⟩
    let grapheme : Grapheme := ⟨info, .str content⟩
    if grapheme.startsNewRow then some self
    else
      let (fg, fgColorIter) := self.fgColorIter.nth (grapheme.len - 1)
      let (style, bgAndStyleIter) := self.bgAndStyleIter.nth (grapheme.len - 1)
      let currentOffset := self.currentOffset + grapheme.len
      if info.cellWidth = 0 then fill debugAssertions storage infos ⟨self.row, currentOffset, fgColorIter, bgAndStyleIter⟩
      else
        let idx := self.row.occ
        let c ← content.toList.head?
        let row ← self.row.update idx
          (fillCell storage self.currentOffset c content.toList.tail fg style)
        let row ← if info.cellWidth = 2 then do
            let row ← row.update idx (insertFlags .wideChar)
            row.update (idx + 1) (insertFlags .wideCharSpacer)
          else some row
        fill debugAssertions storage infos ⟨row, currentOffset, fgColorIter, bgAndStyleIter⟩

end Filling

namespace RowIterator

def new (storage : FlatStorage) (startRow : ℕ) : Option RowIterator := do
  let row ← Row.new storage.columns
  some ⟨storage, startRow, row, .default⟩

/-- The outer option is a panic, the inner one the end of the iteration. -/
def next (debugAssertions : Bool) (self : RowIterator) : Option (Option (Row × RowIterator)) :=
  match self.storage.index.contentRangeForRow self.rowIndex with
  | none => some none
  | some (startOffset, _) => do
    let row ← self.row.reset self.template
    match self.storage.index.graphemeInfosForRow self.rowIndex with
    | none => some none
    | some infos =>
      let filling ← Filling.fill debugAssertions self.storage infos
        ⟨row, startOffset, self.storage.fgColorMap.iterFrom startOffset, self.storage.bgAndStyleMap.iterFrom startOffset⟩
      let entry ← self.storage.index.getEntry self.rowIndex
      let row ← if entry.hasTrailingNewline then some filling.row
        else filling.row.updateLast (Filling.insertFlags .wrapline)
      let row ← if entry.endsWithLeadingWideCharSpacer
        then row.updateLast (Filling.insertFlags .leadingWideCharSpacer) else some row
      some (some (row, { self with rowIndex := self.rowIndex + 1, row }))

/-- The rows that are left, of which there are at most `count`. -/
def collect (debugAssertions : Bool) : ℕ → RowIterator → Option (List Row)
  | 0, _ => some []
  | count + 1, self => do
    match ← self.next debugAssertions with
    | none => some []
    | some (row, self) => (collect debugAssertions count self).map (row :: ·)

end RowIterator

structure Pushing where
  storage : FlatStorage
  fgColor : Color
  bgAndStyle : BgAndStyle
  entryBuilder : EntryBuilder := {}
  offset : ℕ := 0
  lastCell : ℤ := -1
  idx : ℤ := -1

namespace Pushing

def setFgColor (debugAssertions : Bool) (self : Pushing) (cell : Cell) : Option Pushing :=
  if cell.fg = self.fgColor then some self
  else do
    let fgColorMap ← self.storage.fgColorMap.pushAttributeChange debugAssertions self.offset cell.fg
    some { self with fgColor := cell.fg, storage := { self.storage with fgColorMap } }

def setBgAndStyle (debugAssertions : Bool) (self : Pushing) (cell : Cell) : Option Pushing :=
  if self.bgAndStyle = .ofCell cell then some self
  else do
    let bgAndStyleMap ← self.storage.bgAndStyleMap.pushAttributeChange debugAssertions self.offset (.ofCell cell)
    some { self with bgAndStyle := .ofCell cell, storage := { self.storage with bgAndStyleMap } }

def setMarker (self : Pushing) (cell : Cell) : Pushing :=
  match cell.endOfPromptMarker with
  | some marker =>
    { self with
      storage := { self.storage with endOfPromptMarker := some ⟨self.offset, marker.hasExtraTrailingNewline⟩ } }
  | none => self

def pushGrapheme (self : Pushing) (grapheme : Grapheme) : Option Pushing := do
  let entryBuilder ← self.entryBuilder.processGraphemeInfoUnchecked grapheme.info
  let content ← self.storage.content.pushGrapheme grapheme
  some { self with entryBuilder, storage := { self.storage with content } }

def isSpacer (cell : Cell) : Bool := cell.flags.intersects (.wideCharSpacer ||| .leadingWideCharSpacer)

def needsProcessing (fgColor : Color) (bgAndStyle : BgAndStyle) (cell : Cell) : Bool :=
  !cell.isEmpty || cell.fg != fgColor || bgAndStyle != .ofCell cell || cell.endOfPromptMarker.isSome

def pushCell (debugAssertions : Bool) (self : Pushing) (cell : Cell) : Option Pushing :=
  let idx := self.idx + 1
  if isSpacer cell then
    let entryBuilder := if cell.flags.intersects .leadingWideCharSpacer
      then self.entryBuilder.addLeadingWideCharSpacer else self.entryBuilder
    some { self with idx, entryBuilder, lastCell := idx }
  else do
    let processed := needsProcessing self.fgColor self.bgAndStyle cell
    let self ← self.setFgColor debugAssertions cell
    let self ← self.setBgAndStyle debugAssertions cell
    let self := self.setMarker cell
    let grapheme ← Grapheme.newFromCell cell
    let self := { self with idx, offset := self.offset + grapheme.len }
    if processed then
      -- the empty cells that were skipped since the last one with content
      let skipped := List.replicate (idx - 1 - self.lastCell).toNat Grapheme.emptyCell
      let self ← skipped.foldlM pushGrapheme self
      pushGrapheme { self with lastCell := idx } grapheme
    else some self

def rowSoftWraps (columns : ℕ) (row : Row) : Option Bool :=
  if row.occ = columns then
    if columns = 0 then none else row.inner[columns - 1]?.map fun cell => cell.flags.intersects .wrapline
  else some false

/-- A row that does not wrap ends in a newline. -/
def endRow (self : Pushing) (softWraps : Bool) : Option Pushing :=
  if softWraps then
    some { self with storage := { self.storage with index := self.entryBuilder.appendToIndex self.storage.index } }
  else do
    let content ← self.storage.content.pushGrapheme .newline
    let index := self.entryBuilder.addTrailingNewline.appendToIndex self.storage.index
    some { self with storage := { self.storage with content, index } }

def pushRow (debugAssertions : Bool) (self : Pushing) (row : Row) : Option Pushing := do
  let self : Pushing :=
    { storage := self.storage
      fgColor := self.fgColor
      bgAndStyle := self.bgAndStyle
      offset := self.storage.content.endOffset }
  let cells ← row.dirtyCells
  let self ← cells.foldlM (pushCell debugAssertions) self
  let softWraps ← rowSoftWraps self.storage.columns row
  self.endRow softWraps

end Pushing

namespace FlatStorage

def pushRowsInternal (debugAssertions : Bool) (self : FlatStorage) (rows : List Row) : Option FlatStorage := do
  let pushing ← rows.foldlM (Pushing.pushRow debugAssertions)
    { storage := self, fgColor := self.fgColorMap.tail, bgAndStyle := self.bgAndStyleMap.tail }
  some pushing.storage

def truncateRowsFront (self : FlatStorage) (count : ℕ) : FlatStorage :=
  if count = 0 then self
  else
    let count := min count self.totalRows
    let (index, newStartOffset) := self.index.truncateFront count
    { self with
      index
      content := self.content.truncateFront newStartOffset
      fgColorMap := self.fgColorMap.truncateFront newStartOffset
      bgAndStyleMap := self.bgAndStyleMap.truncateFront newStartOffset
      numTruncatedRows := self.numTruncatedRows + count }

def applyMaxRows (self : FlatStorage) : FlatStorage :=
  let maxRows := self.maxRows.getD usizeMax
  if maxRows ≤ self.index.len then self.truncateRowsFront (self.index.len - maxRows) else self

def pushRowsWithoutTruncation (debugAssertions : Bool) (self : FlatStorage) (rows : List Row) : Option FlatStorage :=
  self.pushRowsInternal debugAssertions rows

def pushRows (debugAssertions : Bool) (self : FlatStorage) (rows : List Row) : Option FlatStorage :=
  (self.pushRowsInternal debugAssertions rows).map applyMaxRows

def truncate (debugAssertions : Bool) (self : FlatStorage) (newLen : ℕ) : Option FlatStorage := do
  let (index, newContentLen) := self.index.truncate newLen
  let content ← self.content.truncate debugAssertions newContentLen
  some
    { self with
      index
      content
      fgColorMap := self.fgColorMap.truncate newContentLen
      bgAndStyleMap := self.bgAndStyleMap.truncate newContentLen
      endOfPromptMarker := self.endOfPromptMarker.filter fun marker => marker.offset < newContentLen }

def rowsFrom (debugAssertions : Bool) (self : FlatStorage) (startRow : ℕ) : Option (List Row) := do
  let rows ← RowIterator.new self startRow
  rows.collect debugAssertions (self.totalRows - startRow)

def popRows (debugAssertions : Bool) (self : FlatStorage) (count : ℕ) : Option (List Row × FlatStorage) := do
  let startRow := self.totalRows - count
  let rows ← self.rowsFrom debugAssertions startRow
  let storage ← self.truncate debugAssertions startRow
  some (rows, storage)

def clear (debugAssertions : Bool) (self : FlatStorage) : Option FlatStorage := self.truncate debugAssertions 0

def setColumns (debugAssertions : Bool) (self : FlatStorage) (newColumns : ℕ) : Option FlatStorage :=
  if self.columns = newColumns then some self
  else (self.index.rebuild debugAssertions newColumns).map fun index => { self with columns := newColumns, index }

end FlatStorage

end Warp.Grid
