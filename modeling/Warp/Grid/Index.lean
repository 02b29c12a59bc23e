import Warp.Grid.Content

namespace Warp.Grid

structure GraphemeRun where
  count : NonZeroU16
  info : GraphemeInfo
deriving DecidableEq

namespace GraphemeRun

def cols (self : GraphemeRun) : ℕ := self.count.get * self.info.cellWidth

def infos (self : GraphemeRun) : List GraphemeInfo := List.replicate self.count.get self.info

end GraphemeRun

inductive GraphemeSizing where
  | uniform (run : GraphemeRun)
  | nonUniform
  | emptyRow
deriving DecidableEq

structure Entry where
  contentOffset : ℕ
  graphemeSizing : GraphemeSizing
  hasTrailingNewline : Bool
  endsWithLeadingWideCharSpacer : Bool
deriving DecidableEq

structure Index where
  rows : List Entry
  columns : ℕ
  contentLen : ℕ
  graphemeSizing : OrderedMap ℕ (List GraphemeRun)

structure EntryBuilder where
  numCells : ℕ := 0
  incrContentOffset : ℕ := 0
  hasTrailingNewline : Bool := false
  endsWithLeadingWideCharSpacer : Bool := false
  graphemeRuns : List GraphemeRun := []

namespace Index

def new (columns : ℕ) : Index := ⟨[], columns, 0, .empty⟩

def len (self : Index) : ℕ := self.rows.length

def getEntry (self : Index) (row : ℕ) : Option Entry := self.rows[row]?

def contentOffsetForRow (self : Index) (row : ℕ) : Option ℕ := self.rows[row]?.map Entry.contentOffset

def contentRangeForRow (self : Index) (row : ℕ) : Option (ℕ × ℕ) := do
  let start ← self.contentOffsetForRow row
  some (start, (self.contentOffsetForRow (row + 1)).getD self.contentLen)

def graphemeRunsForRow (self : Index) (row : ℕ) : Option (List GraphemeRun) := do
  let entry ← self.getEntry row
  match entry.graphemeSizing with
  | .uniform run => some [run]
  | .nonUniform => self.graphemeSizing.get entry.contentOffset
  | .emptyRow => some []

def graphemeInfosForRow (self : Index) (row : ℕ) : Option (List GraphemeInfo) :=
  (self.graphemeRunsForRow row).map fun runs => runs.flatMap GraphemeRun.infos

def truncate (self : Index) (newLen : ℕ) : Index × ℕ :=
  match self.contentOffsetForRow newLen with
  | none => (self, self.contentLen)
  | some newContentLen =>
    ({ self with
        rows := self.rows.take newLen
        graphemeSizing := (self.graphemeSizing.splitOff newContentLen).1
        contentLen := newContentLen }, newContentLen)

def truncateFront (self : Index) (count : ℕ) : Index × ℕ :=
  let newStartOffset := (self.contentOffsetForRow count).getD self.contentLen
  ({ self with
      rows := self.rows.drop count
      graphemeSizing := (self.graphemeSizing.splitOff newStartOffset).2 }, newStartOffset)

end Index

namespace EntryBuilder

def pushInfo (info : GraphemeInfo) : List GraphemeRun → Option (List GraphemeRun)
  | [] => some [⟨.one, info⟩]
  | [last] =>
    if last.info = info then (NonZeroU16.new (last.count.get + 1)).map fun count => [{ last with count }]
    else some [last, ⟨.one, info⟩]
  | run :: runs => (pushInfo info runs).map (run :: ·)

def processGraphemeInfoUnchecked (self : EntryBuilder) (info : GraphemeInfo) : Option EntryBuilder :=
  (pushInfo info self.graphemeRuns).map fun graphemeRuns =>
    { self with incrContentOffset := self.incrContentOffset + info.utf8Bytes.get, graphemeRuns }

def addTrailingNewline (self : EntryBuilder) : EntryBuilder :=
  { self with incrContentOffset := self.incrContentOffset + 1, hasTrailingNewline := true }

def addLeadingWideCharSpacer (self : EntryBuilder) : EntryBuilder :=
  { self with endsWithLeadingWideCharSpacer := true }

def appendToIndex (self : EntryBuilder) (index : Index) : Index :=
  let contentOffset := index.contentLen
  let (graphemeSizing, sizing) := match self.graphemeRuns with
    | [run] => (index.graphemeSizing, GraphemeSizing.uniform run)
    | [] => (index.graphemeSizing, .emptyRow)
    | runs => (index.graphemeSizing.insert contentOffset runs, .nonUniform)
  { index with
    graphemeSizing
    contentLen := index.contentLen + self.incrContentOffset
    rows := index.rows ++
      [⟨contentOffset, sizing, self.hasTrailingNewline, self.endsWithLeadingWideCharSpacer⟩] }

def isEmpty (self : EntryBuilder) : Bool :=
  self.incrContentOffset == 0 && !self.hasTrailingNewline && !self.endsWithLeadingWideCharSpacer &&
    self.graphemeRuns.isEmpty

def appendToIndexIfNonempty (self : EntryBuilder) (index : Index) : Index :=
  if self.isEmpty then index else self.appendToIndex index

/-- Starts a new row with the grapheme when the current one has no room for it. -/
def wrap (self : EntryBuilder) (cellWidth : ℕ) (index : Index) : EntryBuilder × Index :=
  if self.numCells + cellWidth > index.columns then
    let self := if cellWidth > 1 ∧ self.numCells ≠ index.columns then self.addLeadingWideCharSpacer else self
    ({}, self.appendToIndex index)
  else (self, index)

def processGraphemeInfo (debugAssertions : Bool) (self : EntryBuilder) (info : GraphemeInfo) (index : Index) :
    Option (EntryBuilder × Index) :=
  if info.cellWidth = 0 then some (self, index)
  else if debugAssertions && decide (info.cellWidth > 2) then none
  else
    let (self, index) := self.wrap info.cellWidth index
    ({ self with numCells := self.numCells + info.cellWidth }.processGraphemeInfoUnchecked info).map (·, index)

def processGrapheme (debugAssertions : Bool) (self : EntryBuilder) (grapheme : Grapheme) (index : Index) :
    Option (EntryBuilder × Index) :=
  if grapheme.startsNewRow then some ({}, self.addTrailingNewline.appendToIndex index)
  else self.processGraphemeInfo debugAssertions grapheme.info index

end EntryBuilder

namespace Index

def rebuildRow (debugAssertions : Bool) (oldIndex : Index) (state : EntryBuilder × Index) (row : ℕ) :
    Option (EntryBuilder × Index) := do
  let infos := (oldIndex.graphemeInfosForRow row).getD []
  let (builder, index) ← infos.foldlM
    (fun state info => state.1.processGraphemeInfo debugAssertions info state.2) state
  let entry ← oldIndex.getEntry row
  if entry.hasTrailingNewline then builder.processGrapheme debugAssertions .newline index else some (builder, index)

def rebuild (debugAssertions : Bool) (oldIndex : Index) (columns : ℕ) : Option Index := do
  let contentLen := (oldIndex.contentOffsetForRow 0).getD 0
  let (builder, index) ← (List.range oldIndex.len).foldlM (oldIndex.rebuildRow debugAssertions)
    ({}, { new columns with contentLen })
  some (builder.appendToIndexIfNonempty index)

end Index

end Warp.Grid
