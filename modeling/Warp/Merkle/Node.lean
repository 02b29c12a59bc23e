import Warp.Lib.HashMap
import Warp.Chunker.Semantic

namespace Warp.Merkle

open Chunker

variable {H T : Type}

inductive NodeId (T : Type) where
  | file (absolutePath : Path) (fileSize : ℕ) (fsModifiedTime : T) (fileContentsHash : Str)
  | directory (absolutePath : Path)
  | fragment (absolutePath : Path) (contentRange : ℕ × ℕ)

inductive MerkleNode (H T : Type) where
  | mk (hash : H) (children : List (MerkleNode H T)) (nodeId : NodeId T)

namespace MerkleNode

def hash : MerkleNode H T → H
  | mk hash _ _ => hash

def children : MerkleNode H T → List (MerkleNode H T)
  | mk _ children _ => children

def nodeId : MerkleNode H T → NodeId T
  | mk _ _ nodeId => nodeId

def absolutePath (self : MerkleNode H T) : Path :=
  match self.nodeId with
  | .file path _ _ _ => path
  | .directory path => path
  | .fragment path _ => path

def childHashes (self : MerkleNode H T) : List H := self.children.map hash

end MerkleNode

structure FragmentLocation where
  startLine : ℕ
  endLine : ℕ
  byteRange : ℕ × ℕ
deriving DecidableEq

structure FragmentMetadata where
  absolutePath : Path
  location : FragmentLocation
deriving DecidableEq

def FragmentMetadata.ofFragment (fragment : Fragment) : FragmentMetadata :=
  ⟨fragment.filePath, fragment.startLine, fragment.endLine, fragment.startByteIndex, fragment.endByteIndex⟩

structure LeafToFragmentMetadataUpdates (H : Type) where
  toRemove : HashMap Path (List H)
  toInsert : HashMap H (List FragmentMetadata)

structure LeafToFragmentMetadata (H : Type) where
  mapping : HashMap H (List FragmentMetadata)

structure FileSystem (T : Type) where
  isDir : Path → Bool
  pathExists : Path → Bool
  /-- The length and, where the platform has it, the modification time. -/
  metadata : Path → Option (ℕ × Option T)
  readToString : Path → Option Str

structure Env (H : Type) where
  fromHashes : List H → H
  fromBytes : Str → H
  contentsHash : Str → Str
  chunkCode : Str → Path → List Fragment
  chunkCode_filePath : ∀ code path, ∀ fragment ∈ chunkCode code path, fragment.filePath = path
  threadpool : Bool

inductive Entry where
  | file (path : Path)
  | directory (path : Path) (children : List Entry)

inductive Error where
  | io
  | fileSizeExceeded
  | failedToGetMetadata (path : Path)
  | emptyNodeContent
  | noThreadpool
  | invalidChildIndex (index count : ℕ)
deriving DecidableEq

def maxFileSize : ℕ := 3 * 1000 * 1000

def isFileParsable (fs : FileSystem T) (path : Path) : Except Error Bool :=
  match fs.metadata path with
  | some (len, _) => .ok (len < maxFileSize)
  | none => .error .io

section Updates

variable [DecidableEq H]

namespace LeafToFragmentMetadataUpdates

def empty : LeafToFragmentMetadataUpdates H := ⟨.empty, .empty⟩

def merge (self other : LeafToFragmentMetadataUpdates H) : LeafToFragmentMetadataUpdates H :=
  ⟨self.toRemove.extendAll other.toRemove, self.toInsert.extendAll other.toInsert⟩

end LeafToFragmentMetadataUpdates

namespace LeafToFragmentMetadata

/-- Takes the locations in a file away from a hash, and the hash with its last location. -/
def removeLocations (mapping : HashMap H (List FragmentMetadata)) (path : Path) (hash : H) :
    HashMap H (List FragmentMetadata) :=
  match mapping.get? hash with
  | none => mapping
  | some entry =>
    let entry := entry.filter fun metadata => metadata.absolutePath ≠ path
    if entry.isEmpty then mapping.remove hash else mapping.insert hash entry

def applyUpdate (self : LeafToFragmentMetadata H) (update : LeafToFragmentMetadataUpdates H) :
    LeafToFragmentMetadata H :=
  let mapping := update.toRemove.entries.foldl (fun mapping entry =>
    entry.2.foldl (fun mapping hash => removeLocations mapping entry.1 hash) mapping) self.mapping
  ⟨mapping.extendAll update.toInsert⟩

end LeafToFragmentMetadata

end Updates

section New

variable [LinearOrder H] (env : Env H) (fs : FileSystem T)

def hashOrder (a b : MerkleNode H T) : Prop := a.hash ≤ b.hash

instance : DecidableRel (hashOrder : MerkleNode H T → MerkleNode H T → Prop) := fun a b =>
  inferInstanceAs (Decidable (a.hash ≤ b.hash))

def newFragment (fragment : Fragment) : Except Error (MerkleNode H T × LeafToFragmentMetadataUpdates H) :=
  if fragment.content = [] then .error .emptyNodeContent
  else
    let hash := env.fromBytes fragment.content
    .ok (⟨hash, [], .fragment fragment.filePath (fragment.startByteIndex, fragment.endByteIndex)⟩,
      ⟨.empty, HashMap.empty.insert hash [.ofFragment fragment]⟩)

def collectOk (updates : LeafToFragmentMetadataUpdates H)
    (results : List (Except Error (MerkleNode H T × LeafToFragmentMetadataUpdates H))) :
    List (MerkleNode H T) × LeafToFragmentMetadataUpdates H :=
  let made := results.filterMap fun result => result.toOption
  (made.map Prod.fst, made.foldl (fun updates result => updates.merge result.2) updates)

def newFile (path : Path) : Except Error (MerkleNode H T × LeafToFragmentMetadataUpdates H) := do
  if !(← isFileParsable fs path) then .error .fileSizeExceeded
  else
    match fs.metadata path with
    | some (fileSize, some fsModifiedTime) =>
      match fs.readToString path with
      | some fileContents =>
        let (children, mappingUpdates) := collectOk .empty ((env.chunkCode fileContents path).map (newFragment env))
        if children.isEmpty then .error .emptyNodeContent
        else
          let hash := env.fromHashes (children.map MerkleNode.hash)
          .ok (⟨hash, children, .file path fileSize fsModifiedTime (env.contentsHash fileContents)⟩, mappingUpdates)
      | none => .error .io
    | _ => .error (.failedToGetMetadata path)

mutual

def newEntry : Entry → Except Error (MerkleNode H T × LeafToFragmentMetadataUpdates H)
  | .file path => newFile env fs path
  | .directory path entries =>
    if env.threadpool = false then .error .noThreadpool
    else
      let (children, mappingUpdates) := collectOk .empty (newEntries entries)
      if children.isEmpty then .error .emptyNodeContent
      else
        let children := children.insertionSort hashOrder
        .ok (⟨env.fromHashes (children.map MerkleNode.hash), children, .directory path⟩, mappingUpdates)

def newEntries : List Entry → List (Except Error (MerkleNode H T × LeafToFragmentMetadataUpdates H))
  | [] => []
  | entry :: entries => newEntry entry :: newEntries entries

end

end New

end Warp.Merkle
