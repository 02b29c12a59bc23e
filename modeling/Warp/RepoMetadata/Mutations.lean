import Warp.RepoMetadata.FileTree

namespace Warp.RepoMetadata

/-- The changes of one batch of events below one repository. -/
structure RepoUpdate (LocalPath : Type) where
  added : List LocalPath
  deleted : List LocalPath
  moved : HashMap LocalPath LocalPath

inductive FileTreeMutation (LocalPath : Type) where
  | remove (path : LocalPath)
  | addFile (path : LocalPath) (isIgnored : Bool) (extension : Option Str)
  | addDirectorySubtree (dirPath : LocalPath) (subtree : Entry)
  | addEmptyDirectory (path : LocalPath) (isIgnored : Bool)

/-- What the disk answers when a path is looked at: `tree` is the outcome of `build_tree`. -/
structure Reading where
  exists' : Bool
  isIgnored : Bool
  isDir : Bool
  tree : Option Entry

/-- The parts of a local path that are used: `try_from_local` and its extension. -/
class LocalPaths (LocalPath : Type) where
  tryFromLocal : LocalPath → Option Path
  extension : LocalPath → Option Str

open LocalPaths

variable {LocalPath : Type}

def addition [LocalPaths LocalPath] (reading : Reading) (pathToAdd : LocalPath) : Option (FileTreeMutation LocalPath) :=
  if ¬ reading.exists' then none
  else if reading.isDir then
    match reading.tree with
    | some subtree => some (.addDirectorySubtree pathToAdd subtree)
    | none => some (.addEmptyDirectory pathToAdd reading.isIgnored)
  else some (.addFile pathToAdd reading.isIgnored (extension pathToAdd))

/-- The disk is read for one path after the other: `disk` answers by the place of the path in the batch. -/
def computeFileTreeMutations [LocalPaths LocalPath] (update : RepoUpdate LocalPath) (disk : ℕ → LocalPath → Reading) :
    List (FileTreeMutation LocalPath) :=
  (update.deleted ++ update.moved.entries.map Prod.snd).map .remove ++
    (update.added ++ update.moved.keys).zipIdx.filterMap fun (pathToAdd, i) => addition (disk i pathToAdd) pathToAdd

mutual

/-- Directories come before their children. -/
def flattenEntryMetadata : Entry → List RepoNodeMetadata
  | .file path extension ignored => [.file path extension ignored]
  | .directory path children ignored loaded => .directory path ignored loaded :: flattenAll children

def flattenAll : List Entry → List RepoNodeMetadata
  | [] => []
  | entry :: entries => flattenEntryMetadata entry ++ flattenAll entries

end

namespace FileTreeEntry

def isParentLoaded (entry : FileTreeEntry) (path : Path) : Bool :=
  match path.parent with
  | none => true
  | some parent => (entry.get parent).any FileTreeEntryState.loaded

def setLoaded (entry : FileTreeEntry) (path : Path) : FileTreeEntry :=
  match entry.get path with
  | some (.directory directory ignored _) =>
    { entry with stateMap := entry.stateMap.insertState path (.directory directory ignored true) }
  | _ => entry

/-- An addition below an existing or missing parent, with the patch that is emitted for it. -/
def addFile (rootEntry : FileTreeEntry) (path : Path) (isIgnored : Bool) (extension : Option Str) :
    FileTreeEntry × Option FileTreeEntryUpdate :=
  match path.parent with
  | none => (rootEntry, none)
  | some parent =>
    let rootEntry := rootEntry.ensureParentDirectoriesExist parent
    match rootEntry.findParentDirectory path with
    | none => (rootEntry, none)
    | some parentDir =>
      let rootEntry :=
        match rootEntry.get path with
        | some entry => { rootEntry with stateMap := rootEntry.stateMap.insertState path (entry.setIgnored isIgnored) }
        | none => rootEntry.insertChildState parentDir (.file path extension isIgnored)
      (rootEntry, some ⟨parent, [.file path extension isIgnored]⟩)

def addDirectorySubtree (rootEntry : FileTreeEntry) (dir : Path) (subtree : Entry) :
    FileTreeEntry × Option FileTreeEntryUpdate :=
  let rootEntry :=
    match dir.parent with
    | some parent => rootEntry.ensureParentDirectoriesExist parent
    | none => rootEntry
  match rootEntry.findParentDirectory dir with
  | none => (rootEntry, none)
  | some parentPath =>
    let rootEntry := ((rootEntry.setLoaded parentPath).remove subtree.path).insertEntryAtPath subtree.path subtree
    (rootEntry, some ⟨dir.parent.getD dir, flattenEntryMetadata subtree⟩)

def addEmptyDirectory (rootEntry : FileTreeEntry) (path : Path) (isIgnored : Bool) :
    FileTreeEntry × Option FileTreeEntryUpdate :=
  match path.parent with
  | none => (rootEntry, none)
  | some parent =>
    let rootEntry := rootEntry.ensureParentDirectoriesExist parent
    match rootEntry.findParentDirectory path with
    | none => (rootEntry, none)
    | some parentDir =>
      (rootEntry.insertChildState parentDir (.directory path isIgnored false), some ⟨parent, [.directory path isIgnored false]⟩)

/-- Additions below a directory that is not loaded are left out of a lazily loaded tree. -/
def unlessUnloaded (lazyLoad : Bool) (path : Path) (add : FileTreeEntry → FileTreeEntry × Option FileTreeEntryUpdate)
    (rootEntry : FileTreeEntry) : FileTreeEntry × Option FileTreeEntryUpdate :=
  if lazyLoad && !rootEntry.isParentLoaded path then (rootEntry, none) else add rootEntry

def applyMutation [LocalPaths LocalPath] (lazyLoad : Bool) (rootEntry : FileTreeEntry) :
    FileTreeMutation LocalPath → FileTreeEntry × Option Path × Option FileTreeEntryUpdate
  | .remove path =>
    match tryFromLocal path with
    | none => (rootEntry, none, none)
    | some stdPath => (rootEntry.remove stdPath, some stdPath, none)
  | .addFile path isIgnored extension =>
    match tryFromLocal path with
    | none => (rootEntry, none, none)
    | some stdPath =>
      let (rootEntry, update) := unlessUnloaded lazyLoad stdPath (·.addFile stdPath isIgnored extension) rootEntry
      (rootEntry, none, update)
  | .addDirectorySubtree dirPath subtree =>
    match tryFromLocal dirPath with
    | none => (rootEntry, none, none)
    | some stdDir =>
      let (rootEntry, update) := unlessUnloaded lazyLoad stdDir (·.addDirectorySubtree stdDir subtree) rootEntry
      (rootEntry, none, update)
  | .addEmptyDirectory path isIgnored =>
    match tryFromLocal path with
    | none => (rootEntry, none, none)
    | some stdPath =>
      let (rootEntry, update) := unlessUnloaded lazyLoad stdPath (·.addEmptyDirectory stdPath isIgnored) rootEntry
      (rootEntry, none, update)

def applyMutations [LocalPaths LocalPath] (lazyLoad : Bool) (rootEntry : FileTreeEntry) :
    List (FileTreeMutation LocalPath) → FileTreeEntry × List Path × List FileTreeEntryUpdate
  | [] => (rootEntry, [], [])
  | mutation :: mutations =>
    let (rootEntry, removeEntry, updateEntry) := rootEntry.applyMutation lazyLoad mutation
    let (rootEntry, removeEntries, updateEntries) := rootEntry.applyMutations lazyLoad mutations
    (rootEntry, removeEntry.toList ++ removeEntries, updateEntry.toList ++ updateEntries)

def applyFileTreeMutations [LocalPaths LocalPath] (rootEntry : FileTreeEntry) (mutations : List (FileTreeMutation LocalPath))
    (lazyLoad emitUpdates : Bool) : FileTreeEntry × Option RepoMetadataUpdate :=
  let (rootEntry, removeEntries, updateEntries) := rootEntry.applyMutations lazyLoad mutations
  (rootEntry, if emitUpdates then some ⟨rootEntry.rootPath, removeEntries, updateEntries⟩ else none)

end FileTreeEntry

end Warp.RepoMetadata
