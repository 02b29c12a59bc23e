import Warp.Editor.Content.AppendStr

namespace Warp.Editor.Content

open SumTree Str

structure BufferCursor (U : Type) where
  cursor : Cursor BufferText BufferSummary CharOffset U
  offset : ℕ

/-- A string is appended unless it is empty. -/
def appendFragment (build : Build) (self : Node BufferText BufferSummary) (newFragment : Str) :
    Option (Node BufferText BufferSummary) :=
  if newFragment = [] then some self else appendStr build self newFragment

namespace BufferCursor

variable {U : Type} [Dimension U BufferSummary] (build : Build)

def new (tree : Node BufferText BufferSummary) : BufferCursor U := ⟨Cursor.new tree, 0⟩

omit [Dimension U BufferSummary] in
def seekPosition (self : BufferCursor U) : ℕ := self.cursor.seekPosition

/-- Where slices begin: the rest of the fragment that the cursor is in the middle of, up to an offset. The flag says whether
the slice ends inside of it. -/
def splitFragment (self : BufferCursor U) (stop : ℕ) : Option (BufferCursor U × Node BufferText BufferSummary × Bool) :=
  if self.seekPosition < self.offset then
    (self.cursor.item build).bind fun item =>
      match item with
      | some (.text fragment _) =>
        (appendFragment build Node.new
          ((fragment.drop (self.offset - self.seekPosition)).take (stop - self.offset))).bind fun newContent =>
          (self.cursor.endSeekPosition build).bind fun (fragmentEnd : ℕ) =>
            if stop < fragmentEnd then some (⟨self.cursor, stop⟩, newContent, true)
            else (self.cursor.next build).map fun cursor => (⟨cursor, self.offset⟩, newContent, false)
      | _ => some (self, Node.new, false)
  else some (self, Node.new, false)

/-- How a slice before markers ends: with the earlier part of a fragment, with an item that ends there, or between items. -/
def endBeforeMarkers (cursor : Cursor BufferText BufferSummary CharOffset U) (newContent : Node BufferText BufferSummary)
    (stop : ℕ) : Option (BufferCursor U × Node BufferText BufferSummary) :=
  (cursor.endSeekPosition build).bind fun (itemEnd : ℕ) =>
    let start : ℕ := cursor.seekPosition
    if stop < itemEnd then
      (cursor.item build).bind fun item =>
        match item with
        | some (.text fragment _) =>
          (appendFragment build newContent (fragment.take (stop - start))).map fun newContent => (⟨cursor, stop⟩, newContent)
        | _ => some (⟨cursor, stop⟩, newContent)
    else if start < stop ∧ 0 < stop then
      (cursor.item build).bind fun item =>
        (match item with
          | some item => newContent.push build item
          | none => some newContent).bind fun newContent =>
          (cursor.next build).map fun cursor => (⟨cursor, stop⟩, newContent)
    else some (⟨cursor, stop⟩, newContent)

def endAfterMarkers (cursor : Cursor BufferText BufferSummary CharOffset U) (newContent : Node BufferText BufferSummary)
    (stop : ℕ) : Option (BufferCursor U × Node BufferText BufferSummary) :=
  let start : ℕ := cursor.seekPosition
  if start < stop then
    (cursor.item build).bind fun item =>
      match item with
      | some (.text fragment _) =>
        (appendFragment build newContent (fragment.take (stop - start))).map fun newContent => (⟨cursor, stop⟩, newContent)
      | _ => some (⟨cursor, stop⟩, newContent)
  else some (⟨cursor, stop⟩, newContent)

def assertAhead (self : BufferCursor U) (stop : ℕ) : Option Unit :=
  if build.debugAssertions ∧ stop < self.offset then none else some ()

def sliceToOffsetBeforeMarkers (self : BufferCursor U) (stop : ℕ) : Option (BufferCursor U × Node BufferText BufferSummary) :=
  (assertAhead build self stop).bind fun _ =>
    (self.splitFragment build stop).bind fun (self, newContent, done) =>
      if done then some (self, newContent)
      else
        (self.cursor.slice build (stop : CharOffset) .left).bind fun (cursor, sliced) =>
          (newContent.pushTree build sliced).bind fun newContent => endBeforeMarkers build cursor newContent stop

def sliceToOffsetAfterMarkers (self : BufferCursor U) (stop : ℕ) : Option (BufferCursor U × Node BufferText BufferSummary) :=
  (assertAhead build self stop).bind fun _ =>
    (self.splitFragment build stop).bind fun (self, newContent, done) =>
      if done then some (self, newContent)
      else
        (self.cursor.slice build (stop : CharOffset) .right).bind fun (cursor, sliced) =>
          (newContent.pushTree build sliced).bind fun newContent => endAfterMarkers build cursor newContent stop

def suffix (self : BufferCursor U) : Option (Node BufferText BufferSummary) :=
  let push (cursor : Cursor BufferText BufferSummary CharOffset U) (newContent : Node BufferText BufferSummary) :=
    (cursor.suffix build).bind fun (_, tree) => newContent.pushTree build tree
  if self.seekPosition < self.offset then
    (self.cursor.item build).bind fun item =>
      match item with
      | some (.text fragment _) =>
        (appendFragment build Node.new (fragment.drop (self.offset - self.seekPosition))).bind fun newContent =>
          (self.cursor.next build).bind fun cursor => push cursor newContent
      | _ => push self.cursor Node.new
  else push self.cursor Node.new

end BufferCursor

end Warp.Editor.Content
