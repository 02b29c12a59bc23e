import Warp.Grid.GridHandler

namespace Warp.Grid

inductive Wrap where
  | none | soft | all
deriving DecidableEq

inductive CursorDirection where
  | left | right
deriving DecidableEq

inductive CursorState where
  | valid
  | exhausted (direction : CursorDirection)
  | invalid
deriving DecidableEq

namespace GridPoint

def wrappingAdd (self : GridPoint) (numCols distance : ℕ) : GridPoint :=
  ⟨self.row + (distance + self.col) / numCols, (self.col + distance) % numCols⟩

def wrappingSub (self : GridPoint) (numCols distance : ℕ) : GridPoint :=
  let lineChanges := (distance + numCols - 1 - self.col) / numCols
  if lineChanges ≤ self.row then ⟨self.row - lineChanges, (numCols + self.col - distance % numCols) % numCols⟩ else ⟨0, 0⟩

end GridPoint

structure GraphemeCursor where
  cur : GridPoint
  cursorState : CursorState
  wrap : Wrap
  cachedRow : Option Row

namespace GraphemeCursor

variable (debugAssertions : Bool) (grid : GridHandler)

def isAtStartOfRow (self : GraphemeCursor) : Bool := self.cur.col == 0

def isAtEndOfRow (self : GraphemeCursor) : Bool := self.cur.col == grid.columns - 1

def isAtStartOfLine (self : GraphemeCursor) : Bool :=
  self.isAtStartOfRow && (self.cur.row == 0 || !grid.rowWraps (self.cur.row - 1))

def isAtEndOfLine (self : GraphemeCursor) : Bool :=
  self.isAtEndOfRow grid && (self.cur.row == grid.totalRows - 1 || !grid.rowWraps self.cur.row)

def currentPointValid (self : GraphemeCursor) : Bool := self.cur.row < grid.totalRows && self.cur.col < grid.columns

def hasNext (self : GraphemeCursor) : Bool :=
  self.currentPointValid grid &&
    !(self.wrap == .none && self.isAtEndOfRow grid || self.wrap == .soft && self.isAtEndOfLine grid) &&
    (!self.isAtEndOfRow grid || decide (self.cur.row < grid.totalRows - 1))

def hasPrev (self : GraphemeCursor) : Bool :=
  self.currentPointValid grid &&
    !(self.wrap == .none && self.isAtStartOfRow || self.wrap == .soft && self.isAtStartOfLine grid) &&
    (!self.isAtStartOfRow || decide (0 < self.cur.row))

def updateCachedRow (self : GraphemeCursor) : Option GraphemeCursor :=
  (grid.row debugAssertions self.cur.row).map fun cachedRow => { self with cachedRow }

def hasStep (direction : CursorDirection) (self : GraphemeCursor) : Bool :=
  match direction with
  | .right => self.hasNext grid
  | .left => self.hasPrev grid

def stepPoint (direction : CursorDirection) (point : GridPoint) : GridPoint :=
  match direction with
  | .right => point.wrappingAdd grid.columns 1
  | .left => point.wrappingSub grid.columns 1

/-- Goes past spacer cells, of which there are fewer than `fuel`. -/
def move (direction : CursorDirection) : ℕ → GraphemeCursor → Option GraphemeCursor
  | 0, _ => none
  | fuel + 1, self =>
    match self.cursorState with
    | .valid =>
      if self.hasStep grid direction then
        let moved := { self with cur := stepPoint grid direction self.cur }
        (grid.cellType moved.cur).bind fun cellType =>
          (if cellType.any CellType.isSpacer then move direction fuel moved else some moved).bind fun moved =>
            if moved.cur.row ≠ self.cur.row then moved.updateCachedRow debugAssertions grid else some moved
      else some { self with cursorState := .exhausted direction }
    | .exhausted other => some (if other = direction then self else { self with cursorState := .valid })
    | .invalid => some self

def moveForward (self : GraphemeCursor) : Option GraphemeCursor :=
  self.move debugAssertions grid .right (grid.totalRows * grid.columns)

def moveBackward (self : GraphemeCursor) : Option GraphemeCursor :=
  self.move debugAssertions grid .left (grid.totalRows * grid.columns)

def new (point : GridPoint) (wrap : Wrap) : Option GraphemeCursor :=
  (grid.row debugAssertions point.row).bind fun row =>
    match row.bind fun row => row.inner[point.col]? with
    | none => some ⟨point, .invalid, wrap, none⟩
    | some cell =>
      let cursor : GraphemeCursor := ⟨point, .valid, wrap, row⟩
      if cell.flags.intersects .wideCharSpacer then cursor.moveBackward debugAssertions grid
      else if cell.flags.intersects .leadingWideCharSpacer then cursor.moveForward debugAssertions grid
      else some cursor

/-- The outer option is a panic. -/
def currentItem (self : GraphemeCursor) : Option (Option (Cell × GridPoint)) :=
  match self.cursorState with
  | .valid => (self.cachedRow.bind fun row => row.inner[self.cur.col]?).map fun cell => some (cell, self.cur)
  | _ => some none

end GraphemeCursor

end Warp.Grid
