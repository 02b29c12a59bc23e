import Warp.Grid.FlatStorage
import Warp.Grid.OffsetPoint
import Warp.Lib.BiMap

namespace Warp.Grid

structure GridStorage where
  rows : List Row
  columns : ℕ

structure GridHandler where
  flatStorage : FlatStorage
  grid : GridStorage
  /-- From rows to the rows that they are displayed at, under a filter. -/
  rowTranslationMap : Option (BiMap ℕ ℕ)

inductive StorageRow where
  | gridStorage (row : ℕ)
  | flatStorage (row : ℕ)

inductive CellType where
  | regularChar | wideChar | wideCharSpacer | leadingWideCharSpacer
deriving DecidableEq

namespace CellType

def ofCell (cell : Cell) : CellType :=
  if !cell.flags.intersects (.wideChar ||| .wideCharSpacer ||| .leadingWideCharSpacer) then .regularChar
  else if cell.flags.intersects .wideChar then .wideChar
  else if cell.flags.intersects .wideCharSpacer then .wideCharSpacer
  else .leadingWideCharSpacer

def isSpacer (self : CellType) : Bool := self == .wideCharSpacer || self == .leadingWideCharSpacer

end CellType

/-- A run of wide graphemes is asserted to reach the offset. -/
def GraphemeRun.cellTypeAtOffset (self : GraphemeRun) (offset : ℕ) : Option CellType :=
  if self.info.cellWidth = 1 then some .regularChar
  else if offset < self.cols then some (if offset % 2 = 0 then .wideChar else .wideCharSpacer)
  else none

namespace Index

def cellTypeInRuns (col : ℕ) : ℕ → List GraphemeRun → Option CellType
  | _, [] => some .regularChar
  | startCol, run :: runs =>
    if col < startCol + run.cols then run.cellTypeAtOffset (col - startCol) else cellTypeInRuns col (startCol + run.cols) runs

/-- The outer option is a panic. -/
def cellType (self : Index) (row col : ℕ) : Option (Option CellType) :=
  match self.getEntry row with
  | none => some none
  | some entry =>
    (if entry.endsWithLeadingWideCharSpacer then (Checked.sub self.columns 1).map (col == ·) else some false).bind fun atSpacer =>
      if atSpacer then some (some .leadingWideCharSpacer)
      else
        match entry.graphemeSizing with
        | .uniform run => if run.cols ≤ col then some (some .regularChar) else (run.cellTypeAtOffset col).map some
        | .nonUniform =>
          match self.graphemeSizing.get entry.contentOffset with
          | none => some none
          | some runs => (cellTypeInRuns col 0 runs).map some
        | .emptyRow => some (some .regularChar)

end Index

namespace FlatStorage

def rowWraps (self : FlatStorage) (row : ℕ) : Bool := (self.index.getEntry row).any fun entry => !entry.hasTrailingNewline

end FlatStorage

namespace GridStorage

def get (self : GridStorage) (index : ℕ) : Option Row := self.rows[index]?

def rowWraps (self : GridStorage) (rowIdx : ℕ) : Bool :=
  match (self.get rowIdx).bind fun row => row.inner.getLast? with
  | none => false
  | some cell => cell.flags.contains .wrapline

end GridStorage

namespace GridHandler

def columns (self : GridHandler) : ℕ := self.grid.columns

def totalRows (self : GridHandler) : ℕ := self.grid.rows.length + self.flatStorage.totalRows

def storageRow (self : GridHandler) (rowIdx : ℕ) : Option StorageRow :=
  if self.totalRows ≤ rowIdx then none
  else if self.flatStorage.totalRows ≤ rowIdx then some (.gridStorage (rowIdx - self.flatStorage.totalRows))
  else some (.flatStorage rowIdx)

/-- The outer option is a panic. -/
def row (debugAssertions : Bool) (self : GridHandler) (index : ℕ) : Option (Option Row) :=
  match self.storageRow index with
  | none => some none
  | some (.gridStorage index) => some (self.grid.get index)
  | some (.flatStorage index) => do
    let rowIter ← RowIterator.new self.flatStorage index
    let next ← rowIter.next debugAssertions
    some (next.map Prod.fst)

def cellType (self : GridHandler) (point : GridPoint) : Option (Option CellType) :=
  match self.storageRow point.row with
  | none => some none
  | some (.gridStorage rowIdx) =>
    some ((self.grid.get rowIdx).bind fun row => row.inner[point.col]?.map CellType.ofCell)
  | some (.flatStorage rowIdx) => self.flatStorage.index.cellType rowIdx point.col

def rowWraps (self : GridHandler) (rowIdx : ℕ) : Bool :=
  match self.storageRow rowIdx with
  | some (.gridStorage rowIdx) => self.grid.rowWraps rowIdx
  | some (.flatStorage rowIdx) => self.flatStorage.rowWraps rowIdx
  | none => false

def maybeTranslatePointFromDisplayedToOriginal (self : GridHandler) (displayedPoint : GridPoint) : GridPoint :=
  match self.rowTranslationMap with
  | none => displayedPoint
  | some map => ((map.getByRight displayedPoint.row).map fun row => ⟨row, displayedPoint.col⟩).getD displayedPoint

def lineSearchRow (self : GridHandler) : ℕ → ℕ
  | 0 => 0
  | row + 1 => if self.rowWraps row then self.lineSearchRow row else row + 1

def lineSearchLeft (self : GridHandler) (point : GridPoint) : GridPoint := ⟨self.lineSearchRow point.row, 0⟩

/-- The loop over the rows before the line; each one that wraps is no line of its own. -/
def unwrapRows (self : GridHandler) : ℕ → ℕ → Option ℕ
  | 0, startRow => some startRow
  | row + 1, startRow =>
    if self.rowWraps row then (Checked.sub startRow 1).bind (self.unwrapRows row) else self.unwrapRows row startRow

def gridAgnosticPoint (self : GridHandler) (point : GridPoint) : Option GridPoint :=
  let start := self.lineSearchLeft point
  let col := point.col + self.columns * (point.row - start.row)
  (self.unwrapRows start.row start.row).map fun row => ⟨row, col⟩

/-- The loop over the rows up to the one that the line starts at; it has at most `fuel` rows left. -/
def findRow (self : GridHandler) (target : ℕ) : ℕ → ℕ → ℕ → ℕ
  | 0, row, _ => row
  | fuel + 1, row, numUnwrappedRowsSoFar =>
    if target = numUnwrappedRowsSoFar then row
    else if !self.rowWraps row then self.findRow target fuel (row + 1) (numUnwrappedRowsSoFar + 1)
    else self.findRow target fuel (row + 1) numUnwrappedRowsSoFar

/-- The loop that goes on along the line while the column is too far. -/
def fitColumn (self : GridHandler) : ℕ → ℕ → ℕ → GridPoint
  | 0, row, col => ⟨row, col⟩
  | fuel + 1, row, col =>
    if self.columns ≤ col && self.rowWraps row then self.fitColumn fuel (row + 1) (col - self.columns) else ⟨row, col⟩

def compatiblePoint (self : GridHandler) (point : GridPoint) : GridPoint :=
  let row := self.findRow point.row self.totalRows 0 0
  self.fitColumn (self.totalRows - row) row point.col

end GridHandler

end Warp.Grid
