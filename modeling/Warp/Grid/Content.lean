import Warp.Grid.Cell
import Warp.Lib.OrderedMap

namespace Warp.Grid

structure NonZeroU16 where
  get : ℕ
  pos : 0 < get
  lt : get < 2 ^ 16
deriving DecidableEq

namespace NonZeroU16

def new (n : ℕ) : Option NonZeroU16 := if h : 0 < n ∧ n < 2 ^ 16 then some ⟨n, h.1, h.2⟩ else none

def one : NonZeroU16 := ⟨1, by decide, by decide⟩

end NonZeroU16

structure GraphemeInfo where
  cellWidth : ℕ
  utf8Bytes : NonZeroU16
deriving DecidableEq

structure Grapheme where
  info : GraphemeInfo
  content : CharOrStr
deriving DecidableEq

namespace Grapheme

def emptyCell : Grapheme := ⟨⟨1, .one⟩, .char Cell.defaultChar⟩

def newline : Grapheme := ⟨⟨0, .one⟩, .char '\n'⟩

/-- The two conversions of the length panic when it is not in the range of a nonzero `u16`. -/
def newFromCell (cell : Cell) : Option Grapheme := do
  let cellWidth := 1 + (cell.flags.contains .wideChar).toNat
  let utf8Bytes ← NonZeroU16.new cell.rawContent.bytes.length
  some ⟨⟨cellWidth, utf8Bytes⟩, cell.rawContent⟩

def bytes (self : Grapheme) : List UInt8 := self.content.bytes

def len (self : Grapheme) : ℕ := self.info.utf8Bytes.get

def startsNewRow (self : Grapheme) : Bool :=
  match self.content with
  | .char c => c == '\n'
  | .str s => s == "\n"

def Sized (self : Grapheme) : Prop := self.bytes.length = self.len

theorem sized_newline : newline.Sized := rfl

structure FromCell (grapheme : Grapheme) : Prop where
  sized : grapheme.Sized
  wide : 0 < grapheme.info.cellWidth

theorem fromCell_emptyCell : emptyCell.FromCell := ⟨rfl, Nat.zero_lt_one⟩

theorem newFromCell_spec {cell : Cell} {grapheme : Grapheme} (made : newFromCell cell = some grapheme) :
    grapheme.FromCell := by
  unfold newFromCell NonZeroU16.new at made
  by_cases inRange : 0 < cell.rawContent.bytes.length ∧ cell.rawContent.bytes.length < 2 ^ 16
  · rw [dif_pos inRange] at made
    obtain rfl := Option.some_inj.mp made
    exact ⟨rfl, Nat.lt_of_lt_of_le Nat.zero_lt_one (Nat.le_add_right _ _)⟩
  · rw [dif_neg inRange] at made
    cases made

end Grapheme

def chunkSize : ℕ := 1024

/-- Bytes past `len` are stale. -/
structure Chunk where
  len : ℕ
  content : List UInt8
  size : content.length = chunkSize
  startOffset : ℕ

namespace Chunk

def new (startOffset : ℕ) : Chunk := ⟨0, List.replicate chunkSize 0, List.length_replicate, startOffset⟩

def stopOffset (self : Chunk) : ℕ := self.startOffset + self.len

def pushCharOrStr (self : Chunk) (charOrStr : CharOrStr) : Option Chunk :=
  let bytes := charOrStr.bytes
  if fits : self.len + bytes.length ≤ chunkSize then
    some
      { self with
        len := self.len + bytes.length
        content := self.content.take self.len ++ bytes ++ self.content.drop (self.len + bytes.length)
        size := by have := self.size; simp only [List.length_append, List.length_take, List.length_drop]; omega }
  else none

/-- A truncation before the chunk is asserted against, and wraps around without the assertion. -/
def truncate (debugAssertions : Bool) (self : Chunk) (offset : ℕ) : Option Chunk :=
  if self.startOffset ≤ offset then some { self with len := offset - self.startOffset }
  else if debugAssertions then none
  else some { self with len := 2 ^ 64 + offset - self.startOffset }

def slice (self : Chunk) (start stop : ℕ) : Option (List UInt8) :=
  if start ≤ stop ∧ stop ≤ chunkSize then some ((self.content.drop start).take (stop - start)) else none

end Chunk

structure Content where
  filledChunks : OrderedMap ℕ Chunk
  activeChunk : Chunk

namespace Content

def new : Content := ⟨.empty, .new 0⟩

def endOffset (self : Content) : ℕ := self.activeChunk.stopOffset

def rollChunk (self : Content) (graphemeLen : ℕ) : Content :=
  if self.activeChunk.len + graphemeLen > chunkSize then
    ⟨self.filledChunks.insert (self.activeChunk.stopOffset - 1) self.activeChunk, .new self.activeChunk.stopOffset⟩
  else self

def pushGrapheme (self : Content) (grapheme : Grapheme) : Option Content :=
  if grapheme.len < chunkSize then do
    let content := self.rollChunk grapheme.len
    let activeChunk ← content.activeChunk.pushCharOrStr grapheme.content
    some { content with activeChunk }
  else none

def truncate (debugAssertions : Bool) (self : Content) (newLen : ℕ) : Option Content := do
  let (filledChunks, truncatedChunks) := self.filledChunks.splitOff newLen
  let activeChunk := (truncatedChunks.first.map Prod.snd).getD self.activeChunk
  let activeChunk ← activeChunk.truncate debugAssertions newLen
  let content : Content := { filledChunks, activeChunk }
  if debugAssertions && content.endOffset != newLen then none else some content

def truncateFront (self : Content) (newStartOffset : ℕ) : Content :=
  { self with filledChunks := self.filledChunks.dropWhile fun key => key < newStartOffset }

/-- The bytes from one offset to another. Past its chunk's length a range is asserted against. -/
def slice (debugAssertions : Bool) (self : Content) (start stop : ℕ) : Option (List UInt8) :=
  let chunk := ((self.filledChunks.ceiling start).map Prod.snd).getD self.activeChunk
  if debugAssertions && chunk.stopOffset < stop then none
  else if chunk.startOffset ≤ start then chunk.slice (start - chunk.startOffset) (stop - chunk.startOffset)
  else none

end Content

end Warp.Grid
