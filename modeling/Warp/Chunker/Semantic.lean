import Warp.Lib.ByteSlice
import Warp.Lib.Path

namespace Warp.Chunker

open Str

/-- A node of the syntax tree: its byte range, the rows of its ends and its children. -/
inductive Node where
  | node (startByte endByte startRow endRow : ℕ) (children : List Node)

namespace Node

def startByte : Node → ℕ
  | node startByte _ _ _ _ => startByte

def endByte : Node → ℕ
  | node _ endByte _ _ _ => endByte

def startRow : Node → ℕ
  | node _ _ startRow _ _ => startRow

def endRow : Node → ℕ
  | node _ _ _ endRow _ => endRow

def children : Node → List Node
  | node _ _ _ _ children => children

def size (self : Node) : ℕ := self.endByte - self.startByte

end Node

structure Fragment where
  content : Str
  startLine : ℕ
  endLine : ℕ
  startByteIndex : ℕ
  endByteIndex : ℕ
  filePath : Path
deriving DecidableEq

inductive Failure where
  | panic
  | maxTraversalDepthExceeded
deriving DecidableEq

abbrev Outcome := Except Failure

/-- A slice that panics outside of the text and inside of a character. -/
def slice (code : Str) (start stop : ℕ) : Outcome Str :=
  match byteSlice code start stop with
  | some content => .ok content
  | none => .error .panic

namespace Fragment

def size (self : Fragment) : ℕ := byteLen self.content

def append (self other : Fragment) (code : Str) : Outcome Fragment := do
  let content ← slice code self.startByteIndex other.endByteIndex
  .ok { self with endLine := other.endLine, endByteIndex := other.endByteIndex, content := content }

def fromNodeStart (node : Node) (path : Path) : Fragment :=
  ⟨[], node.startRow, node.startRow, node.startByte, node.startByte, path⟩

def fromNodeEnd (node : Node) (path : Path) : Fragment :=
  ⟨[], node.endRow, node.endRow, node.endByte, node.endByte, path⟩

end Fragment

/-- The accumulator holds the fragments in reverse, so its last item is the head. -/
def coalesceStep (code : Str) (maxBytesPerChunk : ℕ) (fragment : Fragment) (acc : List Fragment) :
    Outcome (List Fragment) :=
  match acc with
  | lastItem :: items => do
    let newFragment ← slice code fragment.startByteIndex lastItem.endByteIndex
    if byteLen newFragment ≤ maxBytesPerChunk then do
      let fragment ← fragment.append lastItem code
      .ok (fragment :: items)
    else .ok (fragment :: lastItem :: items)
  | [] => .ok [fragment]

def coalesceFragments (fragments : List Fragment) (code : Str) (maxBytesPerChunk : ℕ) : Outcome (List Fragment) :=
  fragments.foldrM (coalesceStep code maxBytesPerChunk) []

def maxTraversalDepth : ℕ := 200

section Split

variable (code : Str) (maxBytesPerChunk : ℕ) (path : Path)

mutual

def splitNode (depth : ℕ) : Node → Outcome (List Fragment)
  | .node startByte endByte startRow endRow children =>
    if maxTraversalDepth < depth then .error .maxTraversalDepthExceeded
    else
      splitChildren depth (.fromNodeStart (.node startByte endByte startRow endRow children) path) [] children

def splitChildren (depth : ℕ) (currentFragment : Fragment) (fragments : List Fragment) :
    List Node → Outcome (List Fragment)
  | [] => .ok (fragments ++ [currentFragment])
  | child :: children =>
    if maxBytesPerChunk < child.size then do
      let nested ← splitNode (depth + 1) child
      splitChildren depth (.fromNodeEnd child path) (fragments ++ [currentFragment] ++ nested) children
    else if maxBytesPerChunk < child.size + currentFragment.size then do
      let newFragment ← (Fragment.fromNodeStart child path).append (.fromNodeEnd child path) code
      splitChildren depth newFragment (fragments ++ [currentFragment]) children
    else do
      let content ← slice code currentFragment.startByteIndex child.endByte
      splitChildren depth
        { currentFragment with endLine := child.endRow, endByteIndex := child.endByte, content := content }
        fragments children

end

def chunkCode (root : Node) : Outcome (List Fragment) := do
  let nodes ← splitNode code maxBytesPerChunk path 0 root
  coalesceFragments nodes code maxBytesPerChunk

end Split

end Warp.Chunker
