import Warp.Lib.HashMap
import Warp.Lib.Path

namespace Warp.RepoMetadata

/-- An entry of the file tree. The ids of files, which nothing here reads, are left out. -/
inductive FileTreeEntryState where
  | file (path : Path) (extension : Option Str) (ignored : Bool)
  | directory (path : Path) (ignored loaded : Bool)
deriving DecidableEq

namespace FileTreeEntryState

def path : FileTreeEntryState → Path
  | file path _ _ => path
  | directory path _ _ => path

def isDirectory : FileTreeEntryState → Bool
  | file .. => false
  | directory .. => true

def ignored : FileTreeEntryState → Bool
  | file _ _ ignored => ignored
  | directory _ ignored _ => ignored

def loaded : FileTreeEntryState → Bool
  | file .. => true
  | directory _ _ loaded => loaded

def setIgnored (ignored : Bool) : FileTreeEntryState → FileTreeEntryState
  | file path extension _ => file path extension ignored
  | directory path _ loaded => directory path ignored loaded

def setPath (path : Path) : FileTreeEntryState → FileTreeEntryState
  | file _ extension ignored => file path extension ignored
  | directory _ ignored loaded => directory path ignored loaded

end FileTreeEntryState

/-- A tree as it is read from the disk. -/
inductive Entry where
  | file (path : Path) (extension : Option Str) (ignored : Bool)
  | directory (path : Path) (children : List Entry) (ignored loaded : Bool)

namespace Entry

def path : Entry → Path
  | file path _ _ => path
  | directory path _ _ _ => path

def state : Entry → FileTreeEntryState
  | file path extension ignored => .file path extension ignored
  | directory path _ ignored loaded => .directory path ignored loaded

def children : Entry → List Entry
  | file .. => []
  | directory _ children _ _ => children

end Entry

structure FileTreeMapStore where
  stateMap : HashMap Path FileTreeEntryState
  parentToChildMap : HashMap Path (HashSet Path)

namespace FileTreeMapStore

def newForEntry (entry : FileTreeEntryState) : FileTreeMapStore := ⟨HashMap.empty.insert entry.path entry, .empty⟩

def newForDirectory (directoryPath : Path) : FileTreeMapStore := newForEntry (.directory directoryPath false true)

def get (self : FileTreeMapStore) (path : Path) : Option FileTreeEntryState := self.stateMap.get? path

def contains (self : FileTreeMapStore) (path : Path) : Bool := (self.get path).isSome

def getAsDirectory (self : FileTreeMapStore) (path : Path) : Option FileTreeEntryState :=
  (self.get path).filter FileTreeEntryState.isDirectory

def childrenOf (self : FileTreeMapStore) (path : Path) : HashSet Path := (self.parentToChildMap.get? path).getD .empty

def setChildren (self : FileTreeMapStore) (path : Path) (children : HashSet Path) : FileTreeMapStore :=
  { self with parentToChildMap := self.parentToChildMap.insert path children }

def children (self : FileTreeMapStore) (path : Path) : List Path :=
  if (self.getAsDirectory path).isNone then [] else (self.childrenOf path).elems

def containsChild (self : FileTreeMapStore) (parentPath child : Path) : Bool :=
  if (self.getAsDirectory parentPath).isNone then false else child ∈ self.childrenOf parentPath

def parentDirectory (self : FileTreeMapStore) (path : Path) : Option Path := do
  let parentDir ← path.parent
  let _ ← self.getAsDirectory parentDir
  return parentDir

def insertState (self : FileTreeMapStore) (path : Path) (entry : FileTreeEntryState) : FileTreeMapStore :=
  { self with stateMap := self.stateMap.insert path entry }

def insertChild (self : FileTreeMapStore) (parentPath : Path) (child : FileTreeEntryState) : FileTreeMapStore :=
  if (self.getAsDirectory parentPath).isNone then self
  else
    let self := self.insertState child.path child
    self.setChildren parentPath ((self.childrenOf parentPath).insert child.path)

mutual

def appendEntry (self : FileTreeMapStore) (parentPath : Path) : Entry → FileTreeMapStore
  | .file path extension ignored => self.insertChild parentPath (.file path extension ignored)
  | .directory path children ignored loaded =>
    (self.insertChild parentPath (.directory path ignored loaded)).appendEntries path children

def appendEntries (self : FileTreeMapStore) (parentPath : Path) : List Entry → FileTreeMapStore
  | [] => self
  | entry :: entries => (self.appendEntry parentPath entry).appendEntries parentPath entries

end

def ofEntry (value : Entry) : FileTreeMapStore := (newForEntry value.state).appendEntries value.path value.children

def removeItemAndParent (self : FileTreeMapStore) (path : Path) : FileTreeMapStore :=
  let self := { self with stateMap := self.stateMap.remove path }
  match self.parentDirectory path with
  | some parent => self.setChildren parent ((self.childrenOf parent).remove path)
  | none => self

def removeUpTo : ℕ → FileTreeMapStore → Path → FileTreeMapStore
  | 0, self, _ => self
  | fuel + 1, self, path =>
    let self := self.removeItemAndParent path
    let children := (self.childrenOf path).elems
    let self := { self with parentToChildMap := self.parentToChildMap.remove path }
    children.foldl (fun self child => removeUpTo fuel self child) self

def depth (self : FileTreeMapStore) : ℕ :=
  (self.stateMap.keys.map List.length).sum + self.parentToChildMap.entries.length + 1

def remove (self : FileTreeMapStore) (path : Path) : FileTreeMapStore := self.removeUpTo self.depth path

def insertEntryAtPath (self : FileTreeMapStore) (path : Path) (entry : Entry) : FileTreeMapStore :=
  let childEntryMap := ofEntry entry
  let self : FileTreeMapStore :=
    ⟨self.stateMap.insertAll childEntryMap.stateMap, self.parentToChildMap.insertAll childEntryMap.parentToChildMap⟩
  match self.parentDirectory path with
  | some parent => self.setChildren parent ((self.childrenOf parent).insert path)
  | none => self

/-- The entry is what the disk holds at the path, unless it cannot be read. -/
def loadAtPath (self : FileTreeMapStore) (path : Path) (read : Option Entry) : FileTreeMapStore :=
  match read with
  | some entry => self.insertEntryAtPath path entry
  | none => self

/-- `update_paths_recursive`, a level of the tree for each unit of fuel. -/
def updatePathsUpTo (source target : Path) : ℕ → FileTreeMapStore → Path → FileTreeMapStore
  | 0, self, _ => self
  | fuel + 1, self, path =>
    if path.startsWith source then
      let newChildPath := target ++ path.drop source.length
      let removed := self.get path
      let self := self.removeItemAndParent path
      match removed with
      | none => self
      | some item =>
        let self := self.insertState newChildPath (item.setPath newChildPath)
        let self :=
          match self.parentToChildMap.get? path with
          | some children =>
            let self := { self with parentToChildMap := self.parentToChildMap.remove path }.setChildren newChildPath children
            children.elems.foldl (fun self child => updatePathsUpTo source target fuel self child) self
          | none => self
        match newChildPath.parent.bind fun parent => (self.parentToChildMap.get? parent).map (parent, ·) with
        | some (parent, children) => self.setChildren parent ((children.remove path).insert newChildPath)
        | none => self
    else self

def renamePath (self : FileTreeMapStore) (path newPath : Path) : FileTreeMapStore :=
  match self.get path, self.parentDirectory newPath with
  | some item, some newParentPath =>
    let fuel := self.depth
    let self := (self.removeItemAndParent path).insertState newPath (item.setPath newPath)
    let self := self.setChildren newParentPath ((self.childrenOf newParentPath).insert newPath)
    if item.isDirectory then
      match self.parentToChildMap.get? path with
      | some children =>
        let self := { self with parentToChildMap := self.parentToChildMap.remove path }.setChildren newPath children
        children.elems.foldl (fun self child => updatePathsUpTo path newPath fuel self child) self
      | none => self
    else self
  | _, _ => self

end FileTreeMapStore

inductive RepoNodeMetadata where
  | directory (path : Path) (ignored loaded : Bool)
  | file (path : Path) (extension : Option Str) (ignored : Bool)
deriving DecidableEq

structure FileTreeEntryUpdate where
  parentPathToReplace : Path
  subtreeMetadata : List RepoNodeMetadata
deriving DecidableEq

structure RepoMetadataUpdate where
  repoPath : Path
  removeEntries : List Path
  updateEntries : List FileTreeEntryUpdate
deriving DecidableEq

structure FileTreeEntry where
  stateMap : FileTreeMapStore
  rootPath : Path

namespace FileTreeEntry

def ofEntry (value : Entry) : FileTreeEntry := ⟨.ofEntry value, value.path⟩

def newForDirectory (rootPath : Path) : FileTreeEntry := ⟨.newForDirectory rootPath, rootPath⟩

def get (self : FileTreeEntry) (path : Path) : Option FileTreeEntryState := self.stateMap.get path

def remove (self : FileTreeEntry) (path : Path) : FileTreeEntry := { self with stateMap := self.stateMap.remove path }

def insertChildState (self : FileTreeEntry) (parentPath : Path) (childState : FileTreeEntryState) : FileTreeEntry :=
  { self with stateMap := self.stateMap.insertChild parentPath childState }

def insertEntryAtPath (self : FileTreeEntry) (path : Path) (entry : Entry) : FileTreeEntry :=
  { self with stateMap := self.stateMap.insertEntryAtPath path entry }

def loadAtPath (self : FileTreeEntry) (path : Path) (read : Option Entry) : FileTreeEntry :=
  { self with stateMap := self.stateMap.loadAtPath path read }

def renamePath (self : FileTreeEntry) (path newPath : Path) : FileTreeEntry :=
  { self with stateMap := self.stateMap.renamePath path newPath }

def findParentDirectory (self : FileTreeEntry) (path : Path) : Option Path := self.stateMap.parentDirectory path

def findOrInsertDirectory (self : FileTreeEntry) (parentPath targetPath : Path) : FileTreeEntry :=
  if self.stateMap.containsChild parentPath targetPath then self
  else self.insertChildState parentPath (.directory targetPath false false)

/-- The directories from the root to the target, the first of them below `currentParent`. -/
def ensureDirectories (self : FileTreeEntry) (currentParent : Path) : List Path → FileTreeEntry
  | [] => self
  | ancestor :: ancestors =>
    let self := self.findOrInsertDirectory currentParent ancestor
    match self.get ancestor with
    | some (.directory path _ _) => self.ensureDirectories path ancestors
    | some (.file ..) => self
    | none => self

def ensureParentDirectoriesExist (self : FileTreeEntry) (targetParent : Path) : FileTreeEntry :=
  if targetParent.startsWith self.rootPath then
    match self.get self.rootPath with
    | some (.directory path _ _) =>
      self.ensureDirectories path (targetParent.ancestors.takeWhile (· ≠ path)).reverse
    | _ => self
  else self

def applyNode (self : FileTreeEntry) : RepoNodeMetadata → FileTreeEntry
  | .directory path ignored loaded =>
    match self.findParentDirectory path with
    | some parent => self.insertChildState parent (.directory path ignored loaded)
    | none => self
  | .file path extension ignored =>
    match self.get path with
    | some existing => { self with stateMap := self.stateMap.insertState path (existing.setIgnored ignored) }
    | none =>
      match self.findParentDirectory path with
      | some parent => self.insertChildState parent (.file path extension ignored)
      | none => self

def applyEntryUpdate (self : FileTreeEntry) (update : FileTreeEntryUpdate) : FileTreeEntry :=
  update.subtreeMetadata.foldl applyNode (self.ensureParentDirectoriesExist update.parentPathToReplace)

def applyRepoMetadataUpdate (self : FileTreeEntry) (update : RepoMetadataUpdate) : FileTreeEntry :=
  update.updateEntries.foldl applyEntryUpdate (update.removeEntries.foldl remove self)

end FileTreeEntry

end Warp.RepoMetadata
