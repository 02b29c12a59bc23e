import Warp.RepoMetadata.Convergence
import Warp.Remote.RepoMetadataProto

namespace Warp

open List

def Path.Normal (path : Path) : Prop := ∀ name ∈ path, name ≠ [] ∧ '/' ∉ name ∧ name ≠ ['.'] ∧ name ≠ ['.', '.']

theorem Path.Normal.parent {path parent : Path} (normal : path.Normal) (isParent : path.parent = some parent) : parent.Normal := by
  obtain ⟨name, rfl⟩ := Path.parent_eq_some_iff.mp isParent
  exact fun other member => normal other (mem_append_left _ member)

namespace RepoMetadata

def RepoNodeMetadata.path : RepoNodeMetadata → Path
  | directory path _ _ => path
  | file path _ _ => path

/-- The paths of an update are those of the source's type. -/
def FileTreeEntryUpdate.Normal (update : FileTreeEntryUpdate) : Prop :=
  update.parentPathToReplace.Normal ∧ ∀ node ∈ update.subtreeMetadata, node.path.Normal

structure RepoMetadataUpdate.Normal (update : RepoMetadataUpdate) : Prop where
  repoPath : update.repoPath.Normal
  removeEntries : ∀ path ∈ update.removeEntries, path.Normal
  updateEntries : ∀ entry ∈ update.updateEntries, entry.Normal

end RepoMetadata

namespace Remote

open RepoMetadata RepoMetadata.LocalPaths

theorem filterMap_map_eq {α β : Type} {f : α → β} {g : β → Option α} {as : List α} (back : ∀ a ∈ as, g (f a) = some a) :
    (as.map f).filterMap g = as := by
  rw [filterMap_map]
  exact (filterMap_congr back).trans filterMap_some

namespace PathTexts

def RoundTrips (texts : PathTexts) : Prop := ∀ path : Path, path.Normal → texts.tryNew (texts.toText path) = some path

variable {texts : PathTexts} (roundTrips : texts.RoundTrips)

include roundTrips

theorem decode_node {node : RepoNodeMetadata} (normal : node.path.Normal) :
    texts.protoToRepoNodeMetadata (texts.nodeToProto node) = some node := by
  cases node with
  | directory path ignored loaded =>
    simp [protoToRepoNodeMetadata, nodeToProto, roundTrips path normal]
  | file path extension ignored =>
    simp [protoToRepoNodeMetadata, nodeToProto, roundTrips path normal]

theorem decode_entryUpdate {update : FileTreeEntryUpdate} (normal : update.Normal) :
    texts.protoToEntryUpdate (texts.entryUpdateToProto update) = some update := by
  unfold protoToEntryUpdate entryUpdateToProto
  rw [roundTrips _ normal.1, filterMap_map_eq fun node member => decode_node roundTrips (normal.2 node member)]
  rfl

theorem decode_update {update : RepoMetadataUpdate} (normal : update.Normal) :
    texts.protoToRepoMetadataUpdate (texts.updateToProto update) = some update := by
  unfold protoToRepoMetadataUpdate updateToProto
  rw [roundTrips _ normal.repoPath, filterMap_map_eq fun path member => roundTrips path (normal.removeEntries path member),
    filterMap_map_eq fun entry member => decode_entryUpdate roundTrips (normal.updateEntries entry member)]
  rfl

end PathTexts

section Mutations

variable {LocalPath : Type} [LocalPaths LocalPath] {lazyLoad : Bool} {t server client : FileTreeEntry} {path dir : Path}

structure Grafts (t : FileTreeEntry) (dir : Path) (subtree : Entry) : Prop where
  path : subtree.path = dir
  named : subtree.Named
  normal : ∀ state ∈ subtree.states, state.path.Normal
  fits : t.SubtreeFits dir subtree

/-- The mutation does nothing, or is no subtree that does not fit. -/
def Fits (lazyLoad : Bool) (t : FileTreeEntry) : FileTreeMutation LocalPath → Prop
  | .addDirectorySubtree dirPath subtree =>
    ∀ dir ∈ tryFromLocal dirPath, (lazyLoad && !t.isParentLoaded dir) = false → t.Open dir → Grafts t dir subtree
  | _ => True

def performMutation (lazyLoad : Bool) (t : FileTreeEntry) (mutation : FileTreeMutation LocalPath) : FileTreeEntry :=
  (t.applyMutation lazyLoad mutation).1

/-- The patch that is emitted for an addition does on the client what the addition does on the server. -/
structure Follows (server client : FileTreeEntry) (result : FileTreeEntry × Option FileTreeEntryUpdate) : Prop where
  mirrors : FileTreeEntry.Mirrors result.1 (result.2.toList.foldl FileTreeEntry.applyEntryUpdate client)
  normal : ∀ update ∈ result.2, update.Normal

theorem follows_patched (mirrors : FileTreeEntry.Mirrors server client) (normal : path.Normal) {node : RepoNodeMetadata}
    (isPath : node.path = path) {result : FileTreeEntry × Option FileTreeEntryUpdate} (patched : server.Patched path node result) :
    Follows server client result := by
  rcases patched with rfl | ⟨parent, isParent, rfl⟩
  · exact ⟨mirrors, nofun⟩
  · refine ⟨mirrors.applyEntryUpdate _, ?_⟩
    rintro _ ⟨⟩
    refine ⟨normal.parent isParent, fun other member => ?_⟩
    rw [List.mem_singleton.mp member, isPath]
    exact normal

variable {subtree : Entry} {texts : PathTexts}

theorem subtree_normal {parent : Path} (normal : dir.Normal) (isParent : dir.parent = some parent)
    (normalStates : ∀ state ∈ subtree.states, state.path.Normal) :
    FileTreeEntryUpdate.Normal ⟨parent, flattenEntryMetadata subtree⟩ := by
  refine ⟨normal.parent isParent, fun node member => ?_⟩
  dsimp only at member
  rw [flattenEntryMetadata_eq] at member
  obtain ⟨state, isState, rfl⟩ := List.mem_map.mp member
  have isPath : state.node.path = state.path := by cases state <;> rfl
  rw [isPath]
  exact normalStates state isState

theorem follows_subtree (mirrors : FileTreeEntry.Mirrors server client) (normal : dir.Normal)
    (grafts : server.Open dir → Grafts server dir subtree) :
    Follows server client (server.addDirectorySubtree dir subtree) := by
  by_cases isOpen : server.Open dir
  · obtain ⟨isDir, named, normalStates, fits⟩ := grafts isOpen
    obtain ⟨parent, isParent, -⟩ := id isOpen
    obtain ⟨t', isResult, rooted, -⟩ := FileTreeEntry.addDirectorySubtree_open mirrors.server isOpen isParent isDir named
    have alike := (FileTreeEntry.addDirectorySubtree_alike_iff mirrors.server isOpen isParent isDir named).mpr fits
    have patched := mirrors.applyEntryUpdate ⟨parent, flattenEntryMetadata subtree⟩
    rw [isResult] at alike ⊢
    refine ⟨⟨⟨patched.rootPath.trans alike.rootPath, fun k => (patched.view k).trans (alike.view k)⟩, rooted, patched.client⟩, ?_⟩
    rintro _ ⟨⟩
    exact subtree_normal normal isParent normalStates
  · rw [FileTreeEntry.addDirectorySubtree_closed mirrors.server isOpen]
    exact ⟨mirrors, nofun⟩

theorem follows_unlessUnloaded (mirrors : FileTreeEntry.Mirrors server client)
    {add : FileTreeEntry → FileTreeEntry × Option FileTreeEntryUpdate}
    (follows : (lazyLoad && !server.isParentLoaded path) = false → Follows server client (add server)) :
    Follows server client (FileTreeEntry.unlessUnloaded lazyLoad path add server) := by
  unfold FileTreeEntry.unlessUnloaded
  split_ifs with unloaded
  · exact ⟨mirrors, nofun⟩
  · exact follows (Bool.eq_false_iff.mpr unloaded)

variable (localNormal : ∀ (path : LocalPath) (stdPath : Path), tryFromLocal path = some stdPath → stdPath.Normal)

include localNormal

theorem follows_addition (mirrors : FileTreeEntry.Mirrors server client) {mutation : FileTreeMutation LocalPath}
    (isAddition : ∀ path, mutation ≠ .remove path) (fits : Fits lazyLoad server mutation) :
    (server.applyMutation lazyLoad mutation).2.1 = none ∧
      Follows server client ((server.applyMutation lazyLoad mutation).1, (server.applyMutation lazyLoad mutation).2.2) := by
  cases mutation with
  | remove path => exact absurd rfl (isAddition path)
  | addFile path isIgnored extension =>
    unfold FileTreeEntry.applyMutation
    dsimp only
    cases isPath : tryFromLocal path with
    | none => exact ⟨rfl, mirrors, nofun⟩
    | some stdPath =>
      have follows : Follows server client (FileTreeEntry.unlessUnloaded lazyLoad stdPath (·.addFile stdPath isIgnored extension) server) :=
        follows_unlessUnloaded mirrors fun _ => follows_patched mirrors (localNormal path stdPath isPath) rfl
          (FileTreeEntry.addFile_patched mirrors.server stdPath isIgnored extension)
      exact ⟨rfl, follows⟩
  | addDirectorySubtree dirPath subtree =>
    unfold FileTreeEntry.applyMutation
    dsimp only
    cases isPath : tryFromLocal dirPath with
    | none => exact ⟨rfl, mirrors, nofun⟩
    | some stdDir =>
      have follows : Follows server client (FileTreeEntry.unlessUnloaded lazyLoad stdDir (·.addDirectorySubtree stdDir subtree) server) :=
        follows_unlessUnloaded mirrors fun loaded =>
          follows_subtree mirrors (localNormal dirPath stdDir isPath) (fits stdDir isPath loaded)
      exact ⟨rfl, follows⟩
  | addEmptyDirectory path isIgnored =>
    unfold FileTreeEntry.applyMutation
    dsimp only
    cases isPath : tryFromLocal path with
    | none => exact ⟨rfl, mirrors, nofun⟩
    | some stdPath =>
      have follows : Follows server client (FileTreeEntry.unlessUnloaded lazyLoad stdPath (·.addEmptyDirectory stdPath isIgnored) server) :=
        follows_unlessUnloaded mirrors fun _ => follows_patched mirrors (localNormal path stdPath isPath) rfl
          (FileTreeEntry.addEmptyDirectory_patched mirrors.server stdPath isIgnored)
      exact ⟨rfl, follows⟩

theorem additions_follow {mutations : List (FileTreeMutation LocalPath)} (areAdditions : ∀ mutation ∈ mutations, ∀ path, mutation ≠ .remove path)
    (mirrors : FileTreeEntry.Mirrors server client) (fits : Trace.Every (performMutation lazyLoad) (Fits lazyLoad) server mutations) :
    (server.applyMutations lazyLoad mutations).2.1 = [] ∧
      FileTreeEntry.Mirrors (server.applyMutations lazyLoad mutations).1
        ((server.applyMutations lazyLoad mutations).2.2.foldl FileTreeEntry.applyEntryUpdate client) ∧
      ∀ update ∈ (server.applyMutations lazyLoad mutations).2.2, update.Normal := by
  induction mutations generalizing server client with
  | nil => exact ⟨rfl, mirrors, nofun⟩
  | cons mutation mutations ih =>
    obtain ⟨isAddition, areAdditions⟩ := List.forall_mem_cons.mp areAdditions
    obtain ⟨nothing, next, normal⟩ := follows_addition localNormal mirrors isAddition fits.1
    obtain ⟨nothingLater, later, normalLater⟩ := ih areAdditions next fits.2
    unfold FileTreeEntry.applyMutations
    dsimp only at *
    refine ⟨by rw [nothing, nothingLater]; rfl, by rw [List.foldl_append]; exact later, fun update member => ?_⟩
    rcases List.mem_append.mp member with member | member
    · exact normal update (Option.mem_toList.mp member)
    · exact normalLater update member

omit localNormal in
theorem applyMutations_removes (removes : List LocalPath) (additions : List (FileTreeMutation LocalPath)) (t : FileTreeEntry) :
    t.applyMutations lazyLoad (removes.map .remove ++ additions) =
      let removed := (removes.filterMap tryFromLocal).foldl FileTreeEntry.remove t
      let rest := removed.applyMutations lazyLoad additions
      (rest.1, removes.filterMap tryFromLocal ++ rest.2.1, rest.2.2) := by
  induction removes generalizing t with
  | nil => rfl
  | cons path removes ih =>
    rw [map_cons, cons_append, FileTreeEntry.applyMutations]
    unfold FileTreeEntry.applyMutation
    dsimp only
    cases isPath : tryFromLocal path with
    | none =>
      rw [filterMap_cons_none isPath]
      dsimp only
      rw [ih]
      rfl
    | some stdPath =>
      rw [filterMap_cons_some isPath]
      dsimp only
      rw [ih]
      rfl

omit localNormal in
theorem foldl_removes (removes : List LocalPath) (t : FileTreeEntry) :
    (removes.map FileTreeMutation.remove).foldl (performMutation lazyLoad) t =
      (removes.filterMap tryFromLocal).foldl FileTreeEntry.remove t := by
  induction removes generalizing t with
  | nil => rfl
  | cons path removes ih =>
    rw [map_cons, foldl_cons, ih, performMutation, FileTreeEntry.applyMutation]
    cases isPath : tryFromLocal path with
    | none => rw [filterMap_cons_none isPath]
    | some stdPath => rw [filterMap_cons_some isPath, foldl_cons]

def Converges (texts : PathTexts) (lazyLoad : Bool) (server client : FileTreeEntry) (mutations : List (FileTreeMutation LocalPath)) :
    Prop :=
  ∃ pushed decoded, (server.applyFileTreeMutations mutations lazyLoad true).2 = some pushed ∧
    texts.protoToRepoMetadataUpdate (texts.updateToProto pushed) = some decoded ∧
    FileTreeEntry.Alike (server.applyFileTreeMutations mutations lazyLoad true).1 (client.applyRepoMetadataUpdate decoded)

theorem mutations_converge (roundTrips : texts.RoundTrips) (mirrors : FileTreeEntry.Mirrors server client)
    (rootNormal : server.rootPath.Normal) (removes : List LocalPath) {additions : List (FileTreeMutation LocalPath)}
    (areAdditions : ∀ mutation ∈ additions, ∀ path, mutation ≠ .remove path)
    (fits : Trace.Every (performMutation lazyLoad) (Fits lazyLoad) server (removes.map .remove ++ additions)) :
    Converges texts lazyLoad server client (removes.map .remove ++ additions) := by
  obtain ⟨-, fits⟩ := Trace.every_append.mp fits
  rw [foldl_removes] at fits
  have removed : FileTreeEntry.Mirrors ((removes.filterMap tryFromLocal).foldl FileTreeEntry.remove server)
      ((removes.filterMap tryFromLocal).foldl FileTreeEntry.remove client) :=
    mirrors.foldl (fun _ _ path mirrors => mirrors.remove path) _
  obtain ⟨nothing, later, normal⟩ := additions_follow localNormal areAdditions removed fits
  have sameRoot : (((removes.filterMap tryFromLocal).foldl FileTreeEntry.remove server).applyMutations lazyLoad additions).1.rootPath =
      server.rootPath := by
    rw [← later.rootPath, (FileTreeEntry.foldl_rooted (fun _ update rooted => FileTreeEntry.applyEntryUpdate_spec rooted update)
      removed.client _).2, (FileTreeEntry.foldl_rooted (f := FileTreeEntry.remove) (fun _ path rooted => ⟨FileTreeMapStore.Rooted.remove rooted path, rfl⟩)
      mirrors.client _).2, mirrors.rootPath]
  unfold Converges FileTreeEntry.applyFileTreeMutations
  rw [applyMutations_removes]
  dsimp only
  rw [if_pos rfl, nothing, append_nil]
  refine ⟨_, _, rfl, PathTexts.decode_update roundTrips ⟨?_, fun path member => ?_, normal⟩, later.toAlike⟩
  · dsimp only
    rw [sameRoot]
    exact rootNormal
  · obtain ⟨localPath, -, isPath⟩ := List.mem_filterMap.mp member
    exact localNormal localPath path isPath

theorem batch_converges (roundTrips : texts.RoundTrips) (mirrors : FileTreeEntry.Mirrors server client)
    (rootNormal : server.rootPath.Normal) (update : RepoUpdate LocalPath) (disk : ℕ → LocalPath → Reading)
    (fits : Trace.Every (performMutation lazyLoad) (Fits lazyLoad) server (computeFileTreeMutations update disk)) :
    Converges texts lazyLoad server client (computeFileTreeMutations update disk) := by
  refine mutations_converge localNormal roundTrips mirrors rootNormal _ ?_ fits
  rintro mutation member path rfl
  obtain ⟨⟨pathToAdd, i⟩, -, isAddition⟩ := List.mem_filterMap.mp member
  dsimp only at isAddition
  unfold addition at isAddition
  split_ifs at isAddition
  · split at isAddition <;> cases isAddition
  · cases isAddition

theorem subtree_converges_iff (roundTrips : texts.RoundTrips) (mirrors : FileTreeEntry.Mirrors server client)
    (rootNormal : server.rootPath.Normal) {dirPath : LocalPath} (isDir : tryFromLocal dirPath = some dir)
    (isPath : subtree.path = dir) (named : subtree.Named) (normal : ∀ state ∈ subtree.states, state.path.Normal) :
    Converges texts lazyLoad server client [.addDirectorySubtree dirPath subtree] ↔
      Fits lazyLoad server (.addDirectorySubtree dirPath subtree) := by
  constructor
  · rintro ⟨pushed, decoded, isPushed, isDecoded, alike⟩
    rintro _ isDir' loaded isOpen
    obtain rfl := Option.some.inj (isDir.symm.trans isDir')
    refine ⟨isPath, named, normal, ?_⟩
    obtain ⟨parent, isParent, -⟩ := id isOpen
    obtain ⟨t', isResult, -, sameRoot, -⟩ := FileTreeEntry.addDirectorySubtree_open mirrors.server isOpen isParent isPath named
    refine (FileTreeEntry.addDirectorySubtree_alike_iff mirrors.server isOpen isParent isPath named).mp ?_
    have one : server.applyMutation lazyLoad (.addDirectorySubtree dirPath subtree) =
        (t', none, some ⟨parent, flattenEntryMetadata subtree⟩) := by
      unfold FileTreeEntry.applyMutation
      dsimp only
      rw [isDir]
      dsimp only
      unfold FileTreeEntry.unlessUnloaded
      rw [loaded, if_neg Bool.false_ne_true]
      dsimp only
      rw [isResult]
    have isApplied : server.applyFileTreeMutations [.addDirectorySubtree dirPath subtree] lazyLoad true =
        (t', some ⟨t'.rootPath, [], [⟨parent, flattenEntryMetadata subtree⟩]⟩) := by
      unfold FileTreeEntry.applyFileTreeMutations FileTreeEntry.applyMutations
      rw [one]
      rfl
    rw [isApplied] at isPushed alike
    rw [← Option.some.inj isPushed, PathTexts.decode_update roundTrips ⟨?_, fun _ member => absurd member not_mem_nil, ?_⟩] at isDecoded
    · rw [← Option.some.inj isDecoded] at alike
      have patched := mirrors.applyEntryUpdate ⟨parent, flattenEntryMetadata subtree⟩
      rw [isResult]
      refine ⟨patched.rootPath.symm.trans alike.rootPath, fun k => ?_⟩
      rw [← patched.view]
      exact alike.view k
    · dsimp only
      rw [sameRoot]
      exact rootNormal
    · intro entry member
      rw [List.mem_singleton.mp member]
      exact subtree_normal (localNormal dirPath _ isDir) isParent normal
  · exact fun fits => mutations_converge localNormal roundTrips mirrors rootNormal [] (by simp) ⟨fits, trivial⟩

end Mutations

end Remote

end Warp
