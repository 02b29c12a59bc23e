import Warp.RepoMetadata.FileTreeUpdates

namespace Warp.RepoMetadata

open Option

variable {path parent target k q : Path} {server client t : FileTreeEntry} {child : FileTreeEntryState}

def FileTreeEntryState.flags (entry : FileTreeEntryState) : Bool × Bool × Bool := (entry.isDirectory, entry.ignored, entry.loaded)

namespace FileTreeEntry

def view (t : FileTreeEntry) (k : Path) : Option (Bool × Bool × Bool) := (t.get k).map FileTreeEntryState.flags

structure Alike (server client : FileTreeEntry) : Prop where
  rootPath : client.rootPath = server.rootPath
  view : ∀ k, client.view k = server.view k

theorem isSome_view (t : FileTreeEntry) (k : Path) : (t.view k).isSome = (t.get k).isSome := isSome_map

theorem directory_iff : (t.stateMap.getAsDirectory q).isSome ↔ ∃ flags, t.view q = some flags ∧ flags.1 = true := by
  rw [FileTreeMapStore.getAsDirectory_isSome]
  unfold view FileTreeEntry.get
  cases t.stateMap.get q <;> simp [FileTreeEntryState.flags]

theorem view_insertState (t : FileTreeEntry) (path k : Path) (entry : FileTreeEntryState) :
    view { t with stateMap := t.stateMap.insertState path entry } k = if k = path then some entry.flags else t.view k := by
  unfold view FileTreeEntry.get
  rw [FileTreeMapStore.get_insertState]
  split_ifs <;> rfl

theorem view_insertChildState (directory : (t.stateMap.getAsDirectory parent).isSome) (k : Path) :
    (t.insertChildState parent child).view k = if k = child.path then some child.flags else t.view k := by
  unfold view FileTreeEntry.get insertChildState
  rw [FileTreeMapStore.get_insertChild directory]
  split_ifs <;> rfl

theorem Rooted.view_remove (rooted : t.Rooted) (path k : Path) :
    (t.remove path).view k = if t.rootPath <+: path ∧ path <+: k then none else t.view k := by
  unfold view FileTreeEntry.get FileTreeEntry.remove
  rw [FileTreeMapStore.Rooted.get_remove rooted]
  split_ifs <;> rfl

theorem Rooted.view_findOrInsertDirectory (rooted : t.Rooted) (directory : (t.stateMap.getAsDirectory parent).isSome)
    (named : target.parent = some parent) (k : Path) : (t.findOrInsertDirectory parent target).view k =
      if k = target then (t.view target).or (some (true, false, false)) else t.view k := by
  unfold view
  rw [(findOrInsertDirectory_spec rooted directory named).2.2]
  split_ifs
  · cases t.get target <;> rfl
  · rfl

structure Mirrors (server client : FileTreeEntry) : Prop extends Alike server client where
  server : server.Rooted
  client : client.Rooted

namespace Mirrors

variable (mirrors : Mirrors server client)

include mirrors

theorem directory (q : Path) : (client.stateMap.getAsDirectory q).isSome ↔ (server.stateMap.getAsDirectory q).isSome := by
  rw [directory_iff, directory_iff, mirrors.view]

theorem findParentDirectory (path : Path) : client.findParentDirectory path = server.findParentDirectory path := by
  ext parent
  unfold FileTreeEntry.findParentDirectory
  rw [FileTreeMapStore.parentDirectory_eq_some, FileTreeMapStore.parentDirectory_eq_some, mirrors.directory]

theorem remove (path : Path) : Mirrors (server.remove path) (client.remove path) where
  rootPath := mirrors.rootPath
  view k := by rw [mirrors.client.view_remove, mirrors.server.view_remove, mirrors.rootPath, mirrors.view]
  server := FileTreeMapStore.Rooted.remove mirrors.server path
  client := FileTreeMapStore.Rooted.remove mirrors.client path

theorem findOrInsertDirectory (directory : (server.stateMap.getAsDirectory parent).isSome)
    (named : target.parent = some parent) :
    Mirrors (server.findOrInsertDirectory parent target) (client.findOrInsertDirectory parent target) := by
  have clientDirectory := (mirrors.directory parent).mpr directory
  obtain ⟨serverRooted, serverRoot, -⟩ := findOrInsertDirectory_spec mirrors.server directory named
  obtain ⟨clientRooted, clientRoot, -⟩ := findOrInsertDirectory_spec mirrors.client clientDirectory named
  refine ⟨⟨?_, fun k => ?_⟩, serverRooted, clientRooted⟩
  · rw [serverRoot, clientRoot, mirrors.rootPath]
  · rw [mirrors.client.view_findOrInsertDirectory clientDirectory named,
      mirrors.server.view_findOrInsertDirectory directory named, mirrors.view, mirrors.view]

omit mirrors in
theorem ensureDirectories (names : List Str) {server client : FileTreeEntry} {current : Path} (mirrors : Mirrors server client)
    (directory : (server.stateMap.getAsDirectory current).isSome) :
    Mirrors (server.ensureDirectories current (descent current names)) (client.ensureDirectories current (descent current names)) := by
  induction names generalizing server client current with
  | nil => exact mirrors
  | cons name names ih =>
    have named : Path.parent (current ++ [name]) = some current := Path.parent_eq_some_iff.mpr ⟨name, rfl⟩
    have next := mirrors.findOrInsertDirectory directory named
    rw [descent, FileTreeEntry.ensureDirectories, FileTreeEntry.ensureDirectories]
    have same := next.view (current ++ [name])
    unfold view at same
    cases found : (server.findOrInsertDirectory current (current ++ [name])).get (current ++ [name]) with
    | none =>
      rw [found, map_none, map_eq_none_iff] at same
      dsimp only
      rw [same]
      exact next
    | some state =>
      rw [found, map_some, map_eq_some_iff] at same
      obtain ⟨state', found', sameFlags⟩ := same
      have sameKind : state'.isDirectory = state.isDirectory := congrArg Prod.fst sameFlags
      rw [found']
      cases state with
      | file =>
        cases state' with
        | file => exact next
        | directory => cases sameKind
      | directory path ignored loaded =>
        cases state' with
        | file => cases sameKind
        | directory path' ignored' loaded' =>
          have isPath : path = current ++ [name] := FileTreeMapStore.Rooted.keyed next.server _ _ found
          have isPath' : path' = current ++ [name] := FileTreeMapStore.Rooted.keyed next.client _ _ found'
          dsimp only
          rw [isPath, isPath']
          exact ih next (FileTreeMapStore.getAsDirectory_isSome.mpr ⟨_, found, rfl⟩)

theorem ensureParentDirectoriesExist (target : Path) :
    Mirrors (server.ensureParentDirectoriesExist target) (client.ensureParentDirectoriesExist target) := by
  unfold FileTreeEntry.ensureParentDirectoriesExist
  rw [mirrors.rootPath]
  split_ifs with inside
  · obtain ⟨names, rfl⟩ := Path.startsWith_iff.mp inside
    have same := mirrors.view server.rootPath
    unfold view at same
    cases found : server.get server.rootPath with
    | none =>
      rw [found, map_none, map_eq_none_iff] at same
      rw [same]
      exact mirrors
    | some state =>
      rw [found, map_some, map_eq_some_iff] at same
      obtain ⟨state', found', sameFlags⟩ := same
      have sameKind : state'.isDirectory = state.isDirectory := congrArg Prod.fst sameFlags
      rw [found']
      cases state with
      | file =>
        cases state' with
        | file => exact mirrors
        | directory => cases sameKind
      | directory path ignored loaded =>
        cases state' with
        | file => cases sameKind
        | directory path' ignored' loaded' =>
          have isPath : path = server.rootPath := FileTreeMapStore.Rooted.keyed mirrors.server _ _ found
          have isPath' : path' = server.rootPath := FileTreeMapStore.Rooted.keyed mirrors.client _ _ found'
          dsimp only
          rw [isPath, isPath', ancestors_takeWhile]
          exact mirrors.ensureDirectories names (FileTreeMapStore.getAsDirectory_isSome.mpr ⟨_, found, rfl⟩)
  · exact mirrors

theorem applyNode (node : RepoNodeMetadata) : Mirrors (server.applyNode node) (client.applyNode node) := by
  obtain ⟨serverRooted, serverRoot⟩ := applyNode_spec mirrors.server node
  obtain ⟨clientRooted, clientRoot⟩ := applyNode_spec mirrors.client node
  refine ⟨⟨by rw [serverRoot, clientRoot, mirrors.rootPath], fun k => ?_⟩, serverRooted, clientRooted⟩
  have insert : ∀ {path parent : Path} {state : FileTreeEntryState}, server.findParentDirectory path = some parent →
      (client.insertChildState parent state).view k = (server.insertChildState parent state).view k := by
    intro path parent state isParent
    have directory := (FileTreeMapStore.parentDirectory_eq_some.mp isParent).2
    rw [view_insertChildState directory, view_insertChildState ((mirrors.directory parent).mpr directory), mirrors.view]
  cases node with
  | directory path ignored loaded =>
    unfold FileTreeEntry.applyNode
    dsimp only
    rw [mirrors.findParentDirectory]
    cases isParent : server.findParentDirectory path with
    | none => exact mirrors.view k
    | some parent => exact insert isParent
  | file path extension ignored =>
    unfold FileTreeEntry.applyNode
    dsimp only
    have same := mirrors.view path
    unfold view at same
    cases found : server.get path with
    | none =>
      rw [found, map_none, map_eq_none_iff] at same
      rw [same, mirrors.findParentDirectory]
      cases isParent : server.findParentDirectory path with
      | none => exact mirrors.view k
      | some parent => exact insert isParent
    | some existing =>
      rw [found, map_some, map_eq_some_iff] at same
      obtain ⟨existing', found', sameFlags⟩ := same
      rw [found']
      dsimp only
      rw [view_insertState, view_insertState, mirrors.view]
      have sameFlags' : (existing'.setIgnored ignored).flags = (existing.setIgnored ignored).flags := by
        cases existing <;> cases existing' <;> simp_all [FileTreeEntryState.flags, FileTreeEntryState.setIgnored,
          FileTreeEntryState.isDirectory, FileTreeEntryState.ignored, FileTreeEntryState.loaded]
      rw [sameFlags']

omit mirrors in
theorem foldl {A : Type} {f : FileTreeEntry → A → FileTreeEntry} (mirrors : Mirrors server client)
    (one : ∀ server client a, Mirrors server client → Mirrors (f server a) (f client a)) (as : List A) :
    Mirrors (as.foldl f server) (as.foldl f client) := by
  induction as generalizing server client with
  | nil => exact mirrors
  | cons a as ih => exact ih (one server client a mirrors)

theorem applyEntryUpdate (update : FileTreeEntryUpdate) :
    Mirrors (server.applyEntryUpdate update) (client.applyEntryUpdate update) :=
  (mirrors.ensureParentDirectoriesExist update.parentPathToReplace).foldl (fun _ _ node mirrors => mirrors.applyNode node) _

end Mirrors

end FileTreeEntry

end Warp.RepoMetadata
