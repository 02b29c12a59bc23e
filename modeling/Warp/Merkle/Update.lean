import Warp.Merkle.Node

namespace Warp.Merkle

variable {H T : Type}

inductive UpdateFileResult where
  | deleted
  | updated
  | noChange
deriving DecidableEq

/-- Marks a changed node by its index among its parent's children, with all of its children or specific ones. -/
inductive NodeMask where
  | all (index : ℕ)
  | specificChildren (index : ℕ) (children : List NodeMask)

namespace NodeMask

def index : NodeMask → ℕ
  | all index => index
  | specificChildren index _ => index

def setIndex (newIndex : ℕ) : NodeMask → NodeMask
  | all _ => all newIndex
  | specificChildren _ children => specificChildren newIndex children

def addChild (self node : NodeMask) : NodeMask :=
  match self with
  | all index => specificChildren index [node]
  | specificChildren index children => specificChildren index (children ++ [node])

end NodeMask

/-- The directories between the one of the update and a path, shallowest first. The names of `current` are in reverse. -/
def ancestorsBelow (absolutePath : Path) : (current : List Str) → Option (List Path)
  | [] => if [] = absolutePath then some [] else none
  | _ :: current =>
    if current.reverse = absolutePath then some []
    else (ancestorsBelow absolutePath current).map fun ancestors => ancestors ++ [current.reverse]

structure Creation where
  createdDirs : HashMap Path (List Entry)
  entriesToCreate : List Entry

namespace Creation

/-- Adds an entry to its parent directory. Without one it is lost. -/
def attach (self : Creation) (absolutePath parentPath : Path) (entry : Entry) : Creation :=
  if parentPath = absolutePath then { self with entriesToCreate := self.entriesToCreate ++ [entry] }
  else
    match self.createdDirs.get? parentPath with
    | some children => { self with createdDirs := self.createdDirs.insert parentPath (children ++ [entry]) }
    | none => self

/-- The entry of a directory in the map, empty at first. -/
def openDir (dirs : HashMap Path (List Entry)) (ancestor : Path) : HashMap Path (List Entry) :=
  match dirs.get? ancestor with
  | some _ => dirs
  | none => dirs.insert ancestor []

def createDirs (self : Creation) (ancestors : List Path) : Creation :=
  { self with createdDirs := ancestors.foldl openDir self.createdDirs }

/-- The first pass. Directories and paths that do not exist are skipped. -/
def addPath (fs : FileSystem T) (absolutePath : Path) (self : Creation) (path : Path) : Creation :=
  if fs.isDir path || !fs.pathExists path then self
  else
    match ancestorsBelow absolutePath path.reverse with
    | none => self
    | some ancestors =>
      match path.parent with
      | none => self.createDirs ancestors
      | some parentPath => (self.createDirs ancestors).attach absolutePath parentPath (.file path)

def attachDir (absolutePath : Path) (self : Creation) (dirPath : Path) : Creation :=
  match dirPath.parent with
  | none => self
  | some parentPath =>
    match self.createdDirs.get? dirPath with
    | none => self
    | some children =>
      { self with createdDirs := self.createdDirs.remove dirPath }.attach absolutePath parentPath
        (.directory dirPath children)

end Creation

def deeper (a b : Path) : Prop := b.length ≤ a.length

instance : DecidableRel deeper := fun a b => inferInstanceAs (Decidable (b.length ≤ a.length))

def entriesToCreate (fs : FileSystem T) (absolutePath : Path) (paths : HashSet Path) : List Entry :=
  let creation := paths.elems.foldl (Creation.addPath fs absolutePath) ⟨.empty, []⟩
  let dirPaths := creation.createdDirs.keys.insertionSort deeper
  (dirPaths.foldl (Creation.attachDir absolutePath) creation).entriesToCreate

/-- What an update does with a file of the tree and with paths that no child of a directory takes. -/
structure Updater (H T : Type) where
  onFile : MerkleNode H T → Path → LeafToFragmentMetadataUpdates H →
    UpdateFileResult × MerkleNode H T × LeafToFragmentMetadataUpdates H
  creates : HashSet Path → Bool
  create : Path → HashSet Path → LeafToFragmentMetadataUpdates H →
    List (MerkleNode H T) × LeafToFragmentMetadataUpdates H

structure Step (H T : Type) where
  result : UpdateFileResult
  node : MerkleNode H T
  mask : NodeMask
  paths : HashSet Path
  updates : LeafToFragmentMetadataUpdates H

structure Visit (H T : Type) where
  result : UpdateFileResult
  node : MerkleNode H T
  mask : NodeMask

section Arrange

variable [LinearOrder H]

def keepVisited (visits : List (Visit H T)) : List (MerkleNode H T × Option NodeMask) :=
  visits.filterMap fun visit =>
    match visit.result with
    | .deleted => none
    | .updated => some (visit.node, some visit.mask)
    | .noChange => some (visit.node, none)

def byHash (a b : MerkleNode H T × Option NodeMask) : Prop := a.1.hash ≤ b.1.hash

instance : DecidableRel (byHash : MerkleNode H T × Option NodeMask → MerkleNode H T × Option NodeMask → Prop) :=
  fun a b => inferInstanceAs (Decidable (a.1.hash ≤ b.1.hash))

/-- Orders the children by hash and adds the masks with their new indices. -/
def arrange (children : List (MerkleNode H T × Option NodeMask)) (nodeMask : NodeMask) :
    List (MerkleNode H T) × NodeMask :=
  let sorted := children.insertionSort byHash
  (sorted.map Prod.fst, sorted.zipIdx.foldl (fun nodeMask entry =>
    match entry.1.2 with
    | some mask => nodeMask.addChild (mask.setIndex entry.2)
    | none => nodeMask) nodeMask)

end Arrange

section Walk

variable [LinearOrder H] (env : Env H) (updater : Updater H T)

mutual

def updateFiles (paths : HashSet Path) (nodeMask : NodeMask) (updates : LeafToFragmentMetadataUpdates H) :
    MerkleNode H T → Step H T
  | .mk hash children (.directory absolutePath) =>
    let pathsUnderDirectory := paths.filter (·.startsWith absolutePath)
    let otherPaths := paths.filter fun path => !path.startsWith absolutePath
    if pathsUnderDirectory.isEmpty then
      ⟨.noChange, .mk hash children (.directory absolutePath), nodeMask, paths, updates⟩
    else
      let (visits, remaining, updates) := updateChildren 0 pathsUnderDirectory updates children
      let kept := keepVisited visits
      if kept.isEmpty && !updater.creates remaining then
        ⟨.deleted, .mk hash [] (.directory absolutePath), nodeMask, otherPaths, updates⟩
      else
        let (created, updates) := updater.create absolutePath remaining updates
        let (children, nodeMask) := arrange (kept ++ created.map fun child => (child, some (.all 0))) nodeMask
        ⟨.updated, .mk (env.fromHashes (children.map MerkleNode.hash)) children (.directory absolutePath), nodeMask,
          otherPaths, updates⟩
  | .mk hash children (.file absolutePath fileSize fsModifiedTime fileContentsHash) =>
    let node := MerkleNode.mk hash children (.file absolutePath fileSize fsModifiedTime fileContentsHash)
    if absolutePath ∈ paths then
      let (result, node, updates) := updater.onFile node absolutePath updates
      ⟨result, node, nodeMask, paths.remove absolutePath, updates⟩
    else ⟨.noChange, node, nodeMask, paths, updates⟩
  | .mk hash children (.fragment absolutePath contentRange) =>
    ⟨.noChange, .mk hash children (.fragment absolutePath contentRange), nodeMask, paths, updates⟩

/-- The loop over the children, which ends when no path is left. -/
def updateChildren (i : ℕ) (paths : HashSet Path) (updates : LeafToFragmentMetadataUpdates H) :
    List (MerkleNode H T) → List (Visit H T) × HashSet Path × LeafToFragmentMetadataUpdates H
  | [] => ([], paths, updates)
  | child :: children =>
    let step := updateFiles paths (.all i) updates child
    let visit : Visit H T := ⟨step.result, step.node, step.mask⟩
    if step.paths.isEmpty then
      (visit :: children.map fun other => ⟨.noChange, other, .all 0⟩, step.paths, step.updates)
    else
      let (visits, remaining, updates) := updateChildren (i + 1) step.paths step.updates children
      (visit :: visits, remaining, updates)

end

def remover : Updater H T where
  onFile node absolutePath updates :=
    (.deleted, node, { updates with toRemove := updates.toRemove.insert absolutePath node.childHashes })
  creates _ := false
  create _ _ updates := ([], updates)

/-- Reads a file of the tree again, and makes nodes for the paths that are left. -/
def upserter (fs : FileSystem T) : Updater H T where
  onFile node absolutePath updates :=
    let updates := { updates with toRemove := updates.toRemove.insert absolutePath node.childHashes }
    if !fs.pathExists absolutePath then (.deleted, node, updates)
    else
      match newFile env fs absolutePath with
      | .ok (newNode, mappingUpdate) => (.updated, newNode, updates.merge mappingUpdate)
      | .error _ => (.deleted, node, updates)
  creates remaining := !remaining.isEmpty
  create absolutePath remaining updates :=
    collectOk updates ((entriesToCreate fs absolutePath remaining).map (newEntry env fs))

def removeFiles (paths : HashSet Path) (nodeMask : NodeMask) (updates : LeafToFragmentMetadataUpdates H)
    (node : MerkleNode H T) : Step H T := updateFiles env remover paths nodeMask updates node

def upsertFiles (fs : FileSystem T) (paths : HashSet Path) (nodeMask : NodeMask)
    (updates : LeafToFragmentMetadataUpdates H) (node : MerkleNode H T) : Step H T :=
  updateFiles env (upserter env fs) paths nodeMask updates node

end Walk

end Warp.Merkle
