import Warp.Lib.BiMap

namespace Warp.Display

inductive DisplaySource where
  | cursorLine
  | filterMatch
  | filterContext
deriving DecidableEq

structure DisplayedRows where
  start : ℕ
  stop : ℕ
  nonempty : start ≤ stop
  source : DisplaySource
deriving DecidableEq

structure Point where
  row : ℕ
  col : ℕ
deriving DecidableEq

structure RowTranslationMap where
  inner : BiMap ℕ ℕ

structure DisplayedOutput where
  displayedRows : List DisplayedRows
  height : ℕ
  rowTranslationMap : RowTranslationMap

namespace DisplayedRows

def rows (self : DisplayedRows) : List ℕ := List.range' self.start (self.stop - self.start + 1)

def height (self : DisplayedRows) : ℕ := self.stop - self.start + 1

def contains (self : DisplayedRows) (row : ℕ) : Prop := self.start ≤ row ∧ row ≤ self.stop

instance (self : DisplayedRows) (row : ℕ) : Decidable (self.contains row) := inferInstanceAs (Decidable (_ ∧ _))

end DisplayedRows

def rowsOf (lines : List DisplayedRows) : List ℕ := lines.flatMap DisplayedRows.rows

/-- What is asserted of the displayed rows: neighbouring ranges are in ascending order. -/
def ascendingWindows : List DisplayedRows → Bool
  | first :: second :: lines => first.stop < second.start && ascendingWindows (second :: lines)
  | _ => true

namespace RowTranslationMap

def maybeTranslatePointFromOriginalToDisplayed (self : RowTranslationMap) (originalPoint : Point) : Point :=
  ((self.inner.getByLeft originalPoint.row).map fun translatedRow => ⟨translatedRow, originalPoint.col⟩).getD
    originalPoint

def maybeTranslateRowFromDisplayedToOriginal (self : RowTranslationMap) (displayedRow : ℕ) : ℕ :=
  (self.inner.getByRight displayedRow).getD displayedRow

def maybeTranslatePointFromDisplayedToOriginal (self : RowTranslationMap) (displayedPoint : Point) : Point :=
  ((self.inner.getByRight displayedPoint.row).map fun originalRow => ⟨originalRow, displayedPoint.col⟩).getD
    displayedPoint

def isDisplayedRow (self : RowTranslationMap) (row : ℕ) : Bool := self.inner.containsLeft row

end RowTranslationMap

namespace DisplayedOutput

def asserted (debugAssertions : Bool) (self : DisplayedOutput) : Option DisplayedOutput :=
  if debugAssertions && !ascendingWindows self.displayedRows then none else some self

def addHeights (height : ℕ) (lines : List DisplayedRows) : ℕ :=
  lines.foldl (fun height rows => height + rows.height) height

def subHeights (height : ℕ) (lines : List DisplayedRows) : ℕ :=
  lines.foldl (fun height rows => height - rows.height) height

def newFromDisplayedLines (debugAssertions : Bool) (displayedLines : List DisplayedRows) : Option DisplayedOutput :=
  asserted debugAssertions
    ⟨displayedLines, addHeights 0 displayedLines, ⟨BiMap.empty.insertFrom 0 (rowsOf displayedLines)⟩⟩

def rows (self : DisplayedOutput) : List ℕ := rowsOf self.displayedRows

def appendToRowTranslation (self : DisplayedOutput) (newLineRanges : List DisplayedRows) : DisplayedOutput :=
  let lastDisplayedRow := (self.displayedRows.getLast?.map DisplayedRows.stop).getD 0
  let offsetRow := ((self.rowTranslationMap.inner.getByLeft lastDisplayedRow).map (· + 1)).getD 0
  { self with rowTranslationMap := ⟨self.rowTranslationMap.inner.insertFrom offsetRow (rowsOf newLineRanges)⟩ }

def extendDisplayedLines (debugAssertions : Bool) (self : DisplayedOutput) (displayedLines : List DisplayedRows) :
    Option DisplayedOutput :=
  let self := { self with height := addHeights self.height displayedLines }
  let self := self.appendToRowTranslation displayedLines
  asserted debugAssertions { self with displayedRows := self.displayedRows ++ displayedLines }

def prependToRowTranslation (self : DisplayedOutput) : DisplayedOutput :=
  { self with rowTranslationMap := ⟨BiMap.empty.insertFrom 0 (rowsOf self.displayedRows)⟩ }

def prependDisplayedLines (debugAssertions : Bool) (self : DisplayedOutput) (displayedLines : List DisplayedRows) :
    Option DisplayedOutput :=
  let self := { self with height := addHeights self.height displayedLines }
  let self := { self with displayedRows := displayedLines ++ self.displayedRows }
  asserted debugAssertions self.prependToRowTranslation

def replaceRowsFromRowTranslation (self : DisplayedOutput) (replaceStart : ℕ) : DisplayedOutput :=
  let firstRowBeforeReplaceRange :=
    if replaceStart = 0 then none else self.displayedRows[replaceStart - 1]?.map DisplayedRows.stop
  let offsetRow := (firstRowBeforeReplaceRange.map fun row =>
    ((self.rowTranslationMap.inner.getByLeft row).map (· + 1)).getD 0).getD 0
  let lastOffsetRow := self.rowTranslationMap.inner.len
  let inner := self.rowTranslationMap.inner.removeRights (List.range' offsetRow (lastOffsetRow + 1 - offsetRow))
  { self with rowTranslationMap := ⟨inner.insertFrom offsetRow (rowsOf (self.displayedRows.drop replaceStart))⟩ }

/-- Also gives the removed rows. A range that is not one of indices panics. -/
def spliceDisplayedLines (debugAssertions : Bool) (self : DisplayedOutput) (replaceStart replaceStop : ℕ)
    (displayedLines : List DisplayedRows) : Option (List DisplayedRows × DisplayedOutput) := do
  let self := { self with height := addHeights self.height displayedLines }
  if replaceStart ≤ replaceStop ∧ replaceStop ≤ self.displayedRows.length then
    let removed := (self.displayedRows.take replaceStop).drop replaceStart
    let self := { self with
      displayedRows :=
        self.displayedRows.take replaceStart ++ displayedLines ++ self.displayedRows.drop replaceStop }
    let self := self.replaceRowsFromRowTranslation replaceStart
    let self ← asserted debugAssertions { self with height := subHeights self.height removed }
    some (removed, self)
  else none

/-- The loop from the last rows on, which stops at rows before the given one. -/
def firstRowsGreaterThanOrContainedIn (self : DisplayedOutput) (row : ℕ) : Option (DisplayedRows × ℕ) :=
  (self.displayedRows.zipIdx.reverse.takeWhile fun entry => row ≤ entry.1.stop).getLast?

def lastRowsLessThanOrContainedIn (self : DisplayedOutput) (row : ℕ) : Option (DisplayedRows × ℕ) :=
  self.displayedRows.zipIdx.reverse.find? fun entry => entry.1.start ≤ row

def partialRows (row : ℕ) (first : DisplayedRows) : List DisplayedRows :=
  if inside : first.contains row then [⟨first.start, row, inside.1, first.source⟩] else []

def truncateFrom (self : DisplayedOutput) (row : ℕ) : DisplayedOutput :=
  match self.firstRowsGreaterThanOrContainedIn row with
  | none => self
  | some (_, truncateIdx) =>
    let truncated := self.displayedRows.drop truncateIdx
    let kept := (truncated.head?.map (partialRows row)).getD []
    { self with
      displayedRows := self.displayedRows.take truncateIdx ++ kept
      height := addHeights (subHeights self.height truncated) kept }

def truncateToRow (self : DisplayedOutput) (row : ℕ) : DisplayedOutput :=
  match self.displayedRows.head? with
  | some first => if row < first.start then { self with displayedRows := [], height := 0 } else self.truncateFrom row
  | none =>
    match self.displayedRows.getLast? with
    | some last => if last.stop < row then self else self.truncateFrom row
    | none => self.truncateFrom row

def reset (self : DisplayedOutput) : DisplayedOutput :=
  { self with displayedRows := [], height := 0, rowTranslationMap := ⟨.empty⟩ }

def maybeTranslatePointFromOriginalToDisplayed (self : DisplayedOutput) (originalPoint : Point) : Point :=
  self.rowTranslationMap.maybeTranslatePointFromOriginalToDisplayed originalPoint

def maybeTranslatePointFromDisplayedToOriginal (self : DisplayedOutput) (displayedPoint : Point) : Point :=
  self.rowTranslationMap.maybeTranslatePointFromDisplayedToOriginal displayedPoint

def maybeTranslateRowFromDisplayedToOriginal (self : DisplayedOutput) (displayedRow : ℕ) : ℕ :=
  self.rowTranslationMap.maybeTranslateRowFromDisplayedToOriginal displayedRow

def isDisplayedRow (self : DisplayedOutput) (row : ℕ) : Bool := self.rowTranslationMap.isDisplayedRow row

def searchDisplayedRow (self : DisplayedOutput) (targetOriginalRow low high : ℕ) (candidate : Option ℕ) : Option ℕ :=
  if low ≤ high then
    let displayedRow := (high + low) / 2
    match self.rowTranslationMap.inner.getByRight displayedRow with
    | none => none
    | some originalRow =>
      if targetOriginalRow < originalRow then
        if displayedRow = 0 then some displayedRow
        else self.searchDisplayedRow targetOriginalRow low (displayedRow - 1) (some displayedRow)
      else if originalRow < targetOriginalRow then
        self.searchDisplayedRow targetOriginalRow (displayedRow + 1) high candidate
      else some displayedRow
  else candidate
termination_by high + 1 - low

def getExactOrNextDisplayedRow (self : DisplayedOutput) (targetOriginalRow : ℕ) : Option ℕ :=
  if self.rowTranslationMap.inner.isEmpty then none
  else
    match self.rowTranslationMap.inner.getByLeft targetOriginalRow with
    | some displayedRow => some displayedRow
    | none => self.searchDisplayedRow targetOriginalRow 0 (self.rowTranslationMap.inner.len - 1) none

end DisplayedOutput

end Warp.Display
