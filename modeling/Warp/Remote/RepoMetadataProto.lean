import Warp.RepoMetadata.FileTree

namespace Warp.Remote

open RepoMetadata

structure PathTexts where
  toText : Path → Str
  tryNew : Str → Option Path

namespace Proto

inductive Node where
  | directory (path : Str) (ignored loaded : Bool)
  | file (path : Str) (extension : Option Str) (ignored : Bool)
deriving DecidableEq

structure RepoNodeMetadata where
  node : Option Node
deriving DecidableEq

structure RepoMetadataEntryUpdate where
  parentPathToReplace : Str
  subtreeMetadata : List RepoNodeMetadata
deriving DecidableEq

structure RepoMetadataUpdatePush where
  repoPath : Str
  removeEntries : List Str
  updateEntries : List RepoMetadataEntryUpdate
deriving DecidableEq

structure RepoMetadataSnapshot where
  repoPath : Str
  entries : List RepoMetadataEntryUpdate
deriving DecidableEq

end Proto

namespace PathTexts

variable (texts : PathTexts)

def nodeToProto (node : RepoNodeMetadata) : Proto.RepoNodeMetadata where
  node := some <|
    match node with
    | .directory path ignored loaded => .directory (texts.toText path) ignored loaded
    | .file path extension ignored => .file (texts.toText path) extension ignored

def entryUpdateToProto (update : FileTreeEntryUpdate) : Proto.RepoMetadataEntryUpdate where
  parentPathToReplace := texts.toText update.parentPathToReplace
  subtreeMetadata := update.subtreeMetadata.map texts.nodeToProto

def updateToProto (update : RepoMetadataUpdate) : Proto.RepoMetadataUpdatePush where
  repoPath := texts.toText update.repoPath
  removeEntries := update.removeEntries.map texts.toText
  updateEntries := update.updateEntries.map texts.entryUpdateToProto

def protoToRepoNodeMetadata (protoNode : Proto.RepoNodeMetadata) : Option RepoNodeMetadata := do
  match ← protoNode.node with
  | .directory path ignored loaded => return .directory (← texts.tryNew path) ignored loaded
  | .file path extension ignored => return .file (← texts.tryNew path) extension ignored

def protoToEntryUpdate (protoUpdate : Proto.RepoMetadataEntryUpdate) : Option FileTreeEntryUpdate := do
  let parentPath ← texts.tryNew protoUpdate.parentPathToReplace
  return ⟨parentPath, protoUpdate.subtreeMetadata.filterMap texts.protoToRepoNodeMetadata⟩

/-- Paths that are no paths are left out. -/
def protoToRepoMetadataUpdate (push : Proto.RepoMetadataUpdatePush) : Option RepoMetadataUpdate := do
  let repoPath ← texts.tryNew push.repoPath
  return ⟨repoPath, push.removeEntries.filterMap texts.tryNew, push.updateEntries.filterMap texts.protoToEntryUpdate⟩

def protoSnapshotToUpdate (snapshot : Proto.RepoMetadataSnapshot) : Option RepoMetadataUpdate := do
  let repoPath ← texts.tryNew snapshot.repoPath
  return ⟨repoPath, [], snapshot.entries.filterMap texts.protoToEntryUpdate⟩

def childrenProto (entry : FileTreeEntry) (children : List Path) : List Proto.RepoNodeMetadata :=
  children.filterMap fun childPath => (entry.get childPath).map fun
    | .directory path ignored loaded => ⟨some (.directory (texts.toText path) ignored loaded)⟩
    | .file path extension ignored => ⟨some (.file (texts.toText path) extension ignored)⟩

def childDirectories (entry : FileTreeEntry) (children : List Path) : List Path :=
  children.filter fun childPath => (entry.get childPath).any FileTreeEntryState.isDirectory

/-- The loop over the queue, with a round for each unit of fuel. -/
def snapshotUpTo (entry : FileTreeEntry) : ℕ → List Path → List Proto.RepoMetadataEntryUpdate
  | 0, _ => []
  | _ + 1, [] => []
  | fuel + 1, currentPath :: queue =>
    let children := entry.stateMap.children currentPath
    if children = [] then snapshotUpTo entry fuel queue
    else
      let subtreeMetadata := texts.childrenProto entry children
      let rest := snapshotUpTo entry fuel (queue ++ childDirectories entry children)
      if subtreeMetadata = [] then rest else ⟨texts.toText currentPath, subtreeMetadata⟩ :: rest

/-- Walks the tree breadth-first from the root. No directory of a tree is met twice. -/
def fileTreeEntryToSnapshotProto (entry : FileTreeEntry) : List Proto.RepoMetadataEntryUpdate :=
  texts.snapshotUpTo entry (entry.stateMap.stateMap.keys.length + 1) [entry.rootPath]

end PathTexts

end Warp.Remote
