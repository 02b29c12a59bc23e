import Warp.Remote.FileTreeSync

namespace Warp.Remote

open RepoMetadata List

variable {server client : FileTreeEntry} {path current k q : Path} {texts : PathTexts}

def childStates (server : FileTreeEntry) (path : Path) : List FileTreeEntryState :=
  (server.stateMap.children path).filterMap server.get

theorem mem_children (rooted : server.Rooted) (directory : (server.stateMap.getAsDirectory path).isSome) :
    k ∈ server.stateMap.children path ↔ (server.get k).isSome ∧ k.parent = some path := by
  unfold FileTreeMapStore.children
  rw [if_neg fun none => FileTreeMapStore.getAsDirectory_isNone.mp none directory, HashSet.mem_elems,
    FileTreeMapStore.Rooted.mem_childrenOf rooted]
  exact ⟨fun ⟨known, named, _⟩ => ⟨known, named⟩,
    fun ⟨known, named⟩ => ⟨known, named, FileTreeMapStore.Rooted.ne_root rooted directory named⟩⟩

theorem mem_childStates (rooted : server.Rooted) (directory : (server.stateMap.getAsDirectory path).isSome)
    {state : FileTreeEntryState} : state ∈ childStates server path ↔
      server.get state.path = some state ∧ state.path.parent = some path := by
  unfold childStates
  rw [mem_filterMap]
  constructor
  · rintro ⟨k, member, found⟩
    have same := FileTreeMapStore.Rooted.keyed rooted k state found
    subst same
    exact ⟨found, ((mem_children rooted directory).mp member).2⟩
  · rintro ⟨found, named⟩
    exact ⟨state.path, (mem_children rooted directory).mpr ⟨by rw [found]; rfl, named⟩, found⟩

theorem childStates_paths (rooted : server.Rooted) (directory : (server.stateMap.getAsDirectory path).isSome) :
    (childStates server path).map FileTreeEntryState.path = server.stateMap.children path := by
  unfold childStates
  rw [map_filterMap]
  refine (filterMap_congr fun k member => ?_).trans filterMap_some
  obtain ⟨state, found⟩ := Option.isSome_iff_exists.mp ((mem_children rooted directory).mp member).1
  rw [found, Option.map_some, FileTreeMapStore.Rooted.keyed rooted k state found]

theorem children_nodup (server : FileTreeEntry) (path : Path) : (server.stateMap.children path).Nodup := by
  unfold FileTreeMapStore.children
  split_ifs
  · exact nodup_nil
  · exact HashSet.distinct _

def directoryUpdate (server : FileTreeEntry) (path : Path) : FileTreeEntryUpdate :=
  ⟨path, (childStates server path).map FileTreeEntryState.node⟩

/-- The client after the patches of a snapshot, a round of the server's loop for each unit of fuel. -/
def restoreUpTo (server : FileTreeEntry) : ℕ → List Path → FileTreeEntry → FileTreeEntry
  | 0, _, client => client
  | _ + 1, [], client => client
  | fuel + 1, current :: queue, client =>
    restoreUpTo server fuel (queue ++ PathTexts.childDirectories server (server.stateMap.children current))
      (if server.stateMap.children current = [] then client else client.applyEntryUpdate (directoryUpdate server current))

theorem childrenProto_eq (children : List Path) :
    texts.childrenProto server children = ((children.filterMap server.get).map FileTreeEntryState.node).map texts.nodeToProto := by
  unfold PathTexts.childrenProto
  rw [List.map_map, map_filterMap]
  refine filterMap_congr fun k _ => ?_
  cases server.get k with
  | none => rfl
  | some state => cases state <;> rfl

theorem childDirectories_nil (server : FileTreeEntry) : PathTexts.childDirectories server [] = [] := rfl

theorem decode_snapshotUpTo (roundTrips : texts.RoundTrips) (rooted : server.Rooted)
    (normal : ∀ k, (server.get k).isSome → k.Normal) (fuel : ℕ) (queue : List Path) (client : FileTreeEntry) :
    ((texts.snapshotUpTo server fuel queue).filterMap texts.protoToEntryUpdate).foldl FileTreeEntry.applyEntryUpdate client =
      restoreUpTo server fuel queue client := by
  induction fuel generalizing queue client with
  | zero => rfl
  | succ fuel ih =>
    cases queue with
    | nil => rfl
    | cons current queue =>
      rw [PathTexts.snapshotUpTo, restoreUpTo]
      dsimp only
      by_cases childless : server.stateMap.children current = []
      · rw [if_pos childless, if_pos childless, childless, childDirectories_nil, append_nil]
        exact ih queue client
      · have directory : (server.stateMap.getAsDirectory current).isSome := by
          by_contra none
          exact childless (if_pos (FileTreeMapStore.getAsDirectory_isNone.mpr none))
        have isEntry : texts.childrenProto server (server.stateMap.children current) =
            (directoryUpdate server current).subtreeMetadata.map texts.nodeToProto := childrenProto_eq _
        have some : texts.childrenProto server (server.stateMap.children current) ≠ [] := by
          rw [isEntry]
          unfold directoryUpdate
          rw [← childStates_paths rooted directory] at childless
          simpa using childless
        have isNormal : (directoryUpdate server current).Normal := by
          refine ⟨?_, fun node member => ?_⟩
          · obtain ⟨state, found, -⟩ := FileTreeMapStore.getAsDirectory_isSome.mp directory
            exact normal current (Option.isSome_iff_exists.mpr ⟨state, found⟩)
          · obtain ⟨state, isChild, rfl⟩ := List.mem_map.mp member
            have isPath : state.node.path = state.path := by cases state <;> rfl
            rw [isPath]
            exact normal state.path (Option.isSome_iff_exists.mpr ⟨state, ((mem_childStates rooted directory).mp isChild).1⟩)
        rw [if_neg childless, if_neg childless, if_neg some, filterMap_cons_some (b := directoryUpdate server current)]
        · exact ih _ _
        · rw [isEntry]
          exact PathTexts.decode_entryUpdate roundTrips isNormal

structure Restored (server : FileTreeEntry) (visited queue : List Path) (client : FileTreeEntry) : Prop where
  rooted : client.Rooted
  rootPath : client.rootPath = server.rootPath
  distinct : (visited ++ queue).Nodup
  directories : ∀ d ∈ visited ++ queue, (server.stateMap.getAsDirectory d).isSome
  above : ∀ d ∈ visited ++ queue, d ≠ server.rootPath → ∃ p ∈ visited, d.parent = some p
  top : server.rootPath ∈ visited ++ queue
  below : ∀ p ∈ visited, ∀ d, (server.stateMap.getAsDirectory d).isSome → d.parent = some p → d ∈ visited ++ queue
  view : ∀ k, client.view k = if k = server.rootPath then some (true, false, true)
    else if ∃ p ∈ visited, k.parent = some p then server.view k else none

theorem mem_childDirectories (rooted : server.Rooted) (directory : (server.stateMap.getAsDirectory path).isSome) :
    k ∈ PathTexts.childDirectories server (server.stateMap.children path) ↔
      (server.stateMap.getAsDirectory k).isSome ∧ k.parent = some path := by
  unfold PathTexts.childDirectories
  rw [List.mem_filter, mem_children rooted directory, FileTreeMapStore.getAsDirectory_isSome]
  cases found : server.get k with
  | none =>
    have : server.stateMap.get k = none := found
    simp [this]
  | some state =>
    have : server.stateMap.get k = some state := found
    simp [this, and_comm]

theorem ensure_stored (rooted : client.Rooted) (directory : (client.stateMap.getAsDirectory path).isSome) (k : Path) :
    (client.ensureParentDirectoriesExist path).view k = client.view k := by
  obtain ⟨rooted', sameRoot⟩ := FileTreeEntry.ensureParentDirectoriesExist_spec rooted path
  unfold FileTreeEntry.view
  rw [(FileTreeEntry.ensureParentDirectoriesExist_get rooted path k).resolve_right]
  rintro ⟨absent, above, created⟩
  have inside := FileTreeMapStore.Rooted.below rooted' (Option.isSome_iff_exists.mpr ⟨_, created⟩)
  obtain ⟨state, found, -⟩ := FileTreeMapStore.getAsDirectory_isSome.mp directory
  have stored := FileTreeMapStore.Rooted.closed rooted (by rw [found]; rfl) above (sameRoot ▸ inside)
  rw [show client.stateMap.get k = none from absent] at stored
  cases stored

theorem placed_children (states : List FileTreeEntryState) {t : FileTreeEntry} (rooted : t.Rooted)
    (directory : (t.stateMap.getAsDirectory path).isSome) (named : ∀ state ∈ states, state.path.parent = some path)
    (distinct : (states.map FileTreeEntryState.path).Nodup) (fits : t.KindsFit states) :
    t.Placed states ((states.map FileTreeEntryState.node).foldl FileTreeEntry.applyNode t) := by
  induction states generalizing t with
  | nil => exact ⟨rooted, nofun, fun _ _ => rfl⟩
  | cons state states ih =>
    obtain ⟨isNamed, named⟩ := List.forall_mem_cons.mp named
    obtain ⟨fresh, distinct⟩ := List.nodup_cons.mp distinct
    have apart : ∀ other ∈ [state], ∀ state' ∈ states, state'.path ≠ other.path := by
      intro other member state' member' same
      rw [List.mem_singleton.mp member] at same
      exact fresh (same ▸ List.mem_map_of_mem member')
    have first := FileTreeEntry.placed_singleton rooted directory isNamed
      fun other member => fits other (List.mem_cons.mpr (.inl (List.mem_singleton.mp member)))
    have above : ∀ other ∈ [state], other.path ≠ path := by
      intro other member
      rw [List.mem_singleton.mp member]
      exact (Path.ne_of_parent isNamed).symm
    have fitsRest := FileTreeEntry.KindsFit.placed (show t.KindsFit ([state] ++ states) from fits) first apart
    exact first.trans (ih first.rooted (first.directory directory above) named distinct fitsRest) apart

theorem Restored.visit (rooted : server.Rooted) {visited queue : List Path} (restored : Restored server visited (current :: queue) client) :
    Restored server (visited ++ [current]) (queue ++ PathTexts.childDirectories server (server.stateMap.children current))
      (if server.stateMap.children current = [] then client else client.applyEntryUpdate (directoryUpdate server current)) := by
  have directory := restored.directories current (by simp)
  have split : visited ++ [current] ++ (queue ++ PathTexts.childDirectories server (server.stateMap.children current)) =
      visited ++ current :: queue ++ PathTexts.childDirectories server (server.stateMap.children current) := by simp
  have isNew : current ∉ visited := fun member =>
    (List.nodup_append.mp restored.distinct).2.2 current member current mem_cons_self rfl
  have rootVisited : current ≠ server.rootPath → ∃ p ∈ visited, current.parent = some p := restored.above current (by simp)
  have clientDirectory : (client.stateMap.getAsDirectory current).isSome := by
    rw [FileTreeEntry.directory_iff, restored.view]
    by_cases same : current = server.rootPath
    · rw [if_pos same]
      exact ⟨_, rfl, rfl⟩
    · rw [if_neg same, if_pos (rootVisited same), ← FileTreeEntry.directory_iff]
      exact directory
  have notYet : ∀ {k}, k.parent = some current → k ≠ server.rootPath ∧ client.view k = none := by
    intro k isParent
    have other := FileTreeMapStore.Rooted.ne_root rooted directory isParent
    refine ⟨other, ?_⟩
    rw [restored.view, if_neg other, if_neg]
    rintro ⟨p, member, isParent'⟩
    exact isNew (Option.some.inj (isParent.symm.trans isParent') ▸ member)
  -- Nothing but the children of the directory is to be restored.
  have viewNext : ∀ {k}, (k.parent = some current → server.view k = none) → client.view k =
      if k = server.rootPath then some (true, false, true)
        else if ∃ p ∈ visited ++ [current], k.parent = some p then server.view k else none := by
    intro k childless
    by_cases isChild : k.parent = some current
    · obtain ⟨other, absent⟩ := notYet isChild
      rw [absent, if_neg other, if_pos ⟨current, by simp, isChild⟩, childless isChild]
    · rw [restored.view]
      simp [isChild]
  constructor
  case distinct =>
    rw [split]
    refine List.nodup_append.mpr ⟨restored.distinct, (children_nodup server current).filter _, ?_⟩
    rintro d before _ isChild rfl
    have isParent := ((mem_childDirectories rooted directory).mp isChild).2
    obtain ⟨p, member, isParent'⟩ := restored.above d before (notYet isParent).1
    exact isNew (Option.some.inj (isParent.symm.trans isParent') ▸ member)
  case directories =>
    rw [split]
    intro d member
    rcases List.mem_append.mp member with member | member
    · exact restored.directories d member
    · exact ((mem_childDirectories rooted directory).mp member).1
  case above =>
    rw [split]
    intro d member other
    rcases List.mem_append.mp member with member | member
    · obtain ⟨p, isVisited, isParent⟩ := restored.above d member other
      exact ⟨p, mem_append_left _ isVisited, isParent⟩
    · exact ⟨current, by simp, ((mem_childDirectories rooted directory).mp member).2⟩
  case top =>
    rw [split]
    exact mem_append_left _ restored.top
  case below =>
    rw [split]
    intro p member d isDirectory isParent
    rcases List.mem_append.mp member with member | member
    · exact mem_append_left _ (restored.below p member d isDirectory isParent)
    · rw [List.mem_singleton.mp member] at isParent
      exact mem_append_right _ ((mem_childDirectories rooted directory).mpr ⟨isDirectory, isParent⟩)
  case rooted =>
    split_ifs
    · exact restored.rooted
    · exact (FileTreeEntry.applyEntryUpdate_spec restored.rooted _).1
  case rootPath =>
    split_ifs
    · exact restored.rootPath
    · exact (FileTreeEntry.applyEntryUpdate_spec restored.rooted _).2.trans restored.rootPath
  case view =>
    split_ifs with childless
    · intro k
      apply viewNext
      intro isParent
      cases found : server.view k with
      | none => rfl
      | some flags =>
        have stored : (server.get k).isSome := by rw [← FileTreeEntry.isSome_view, found]; rfl
        have := (mem_children rooted directory).mpr ⟨stored, isParent⟩
        rw [childless] at this
        cases this
    · intro k
      obtain ⟨rooted1, -⟩ := FileTreeEntry.ensureParentDirectoriesExist_spec restored.rooted current
      have ensured := ensure_stored restored.rooted clientDirectory
      have directory1 : ((client.ensureParentDirectoriesExist current).stateMap.getAsDirectory current).isSome := by
        rw [FileTreeEntry.directory_iff, ensured, ← FileTreeEntry.directory_iff]
        exact clientDirectory
      have named : ∀ state ∈ childStates server current, state.path.parent = some current :=
        fun state member => ((mem_childStates rooted directory).mp member).2
      have fits : (client.ensureParentDirectoriesExist current).KindsFit (childStates server current) := by
        intro state member flags found
        rw [ensured, (notYet (named state member)).2] at found
        cases found
      have placed := placed_children (childStates server current) rooted1 directory1 named
        (childStates_paths rooted directory ▸ children_nodup server current) fits
      show (((childStates server current).map FileTreeEntryState.node).foldl FileTreeEntry.applyNode
        (client.ensureParentDirectoriesExist current)).view k = _
      by_cases isChild : ∃ state ∈ childStates server current, state.path = k
      · obtain ⟨state, member, rfl⟩ := isChild
        obtain ⟨found, isParent⟩ := (mem_childStates rooted directory).mp member
        rw [placed.set state member, if_neg (notYet isParent).1, if_pos ⟨current, by simp, isParent⟩, FileTreeEntry.view, found]
        rfl
      · rw [placed.frame k fun state member same => isChild ⟨state, member, same⟩, ensured]
        apply viewNext
        intro isParent
        cases found : server.get k with
        | none => exact congrArg (Option.map FileTreeEntryState.flags) found
        | some state =>
          have same := FileTreeMapStore.Rooted.keyed rooted k state found
          exact absurd ⟨state, (mem_childStates rooted directory).mpr ⟨same.symm ▸ found, same.symm ▸ isParent⟩, same⟩ isChild

theorem Restored.length_le {visited queue : List Path} (restored : Restored server visited queue client) :
    (visited ++ queue).length ≤ server.stateMap.stateMap.keys.length := by
  refine List.Nodup.length_le_of_subset restored.distinct fun d member => ?_
  obtain ⟨state, found, -⟩ := FileTreeMapStore.getAsDirectory_isSome.mp (restored.directories d member)
  exact HashMap.get?_isSome_iff.mp (Option.isSome_iff_exists.mpr ⟨state, found⟩)

theorem Restored.run (rooted : server.Rooted) (fuel : ℕ) {visited queue : List Path} {client : FileTreeEntry}
    (restored : Restored server visited queue client)
    (enough : server.stateMap.stateMap.keys.length < fuel + visited.length) :
    ∃ visited', Restored server visited' [] (restoreUpTo server fuel queue client) := by
  induction fuel generalizing visited queue client with
  | zero =>
    have := restored.length_le
    rw [length_append] at this
    omega
  | succ fuel ih =>
    cases queue with
    | nil => exact ⟨visited, restored⟩
    | cons current queue =>
      refine ih (restored.visit rooted) ?_
      rw [length_append, length_singleton]
      omega

theorem Restored.view_of_ne (rooted : server.Rooted) {visited : List Path} (restored : Restored server visited [] client)
    (other : k ≠ server.rootPath) : client.view k = server.view k := by
  have all : ∀ d, (server.stateMap.getAsDirectory d).isSome → d ∈ visited := by
    intro d
    induction d using List.reverseRecOn with
    | nil =>
      intro directory
      by_cases same : [] = server.rootPath
      · have := restored.top
        rwa [append_nil, ← same] at this
      · obtain ⟨state, found, -⟩ := FileTreeMapStore.getAsDirectory_isSome.mp directory
        obtain ⟨q, isParent, -⟩ := FileTreeMapStore.Rooted.parents rooted [] (by rw [found]; rfl) same
        cases isParent
    | append_singleton init name ih =>
      intro directory
      by_cases same : init ++ [name] = server.rootPath
      · have := restored.top
        rwa [append_nil, ← same] at this
      · obtain ⟨state, found, -⟩ := FileTreeMapStore.getAsDirectory_isSome.mp directory
        obtain ⟨q, isParent, above, -⟩ := FileTreeMapStore.Rooted.parents rooted _ (by rw [found]; rfl) same
        obtain rfl : init = q := Option.some.inj ((Path.parent_eq_some_iff.mpr ⟨name, rfl⟩).symm.trans isParent)
        have := restored.below init (ih above) _ directory isParent
        rwa [append_nil] at this
  rw [restored.view, if_neg other]
  split_ifs with listed
  · rfl
  · cases found : server.view k with
    | none => rfl
    | some flags =>
      have stored : (server.get k).isSome := by rw [← FileTreeEntry.isSome_view, found]; rfl
      obtain ⟨q, isParent, directory, -⟩ := FileTreeMapStore.Rooted.parents rooted k stored other
      exact absurd ⟨q, all q directory, isParent⟩ listed

theorem newForDirectory_view (root k : Path) :
    (FileTreeEntry.newForDirectory root).view k = if k = root then some (true, false, true) else none := by
  unfold FileTreeEntry.view
  rw [show (FileTreeEntry.newForDirectory root).get k = if k = root then some (.directory root false true) else none from
    FileTreeMapStore.get_newForEntry ..]
  split_ifs <;> rfl

theorem newForDirectory_restored (directory : (server.stateMap.getAsDirectory server.rootPath).isSome) :
    Restored server [] [server.rootPath] (FileTreeEntry.newForDirectory server.rootPath) where
  rooted := FileTreeMapStore.newForEntry_rooted (.directory server.rootPath false true)
  rootPath := rfl
  distinct := nodup_singleton _
  directories d member := by
    rw [List.mem_singleton.mp member]
    exact directory
  above d member other := absurd (List.mem_singleton.mp member) other
  top := mem_singleton_self _
  below p member := absurd member not_mem_nil
  view k := by
    rw [newForDirectory_view]
    simp

/-- A snapshot of the tree, decoded and applied on a fresh client entry, gives the client the tree. -/
def Restores (texts : PathTexts) (server : FileTreeEntry) : Prop :=
  ∃ update, texts.protoSnapshotToUpdate ⟨texts.toText server.rootPath, texts.fileTreeEntryToSnapshotProto server⟩ = some update ∧
    FileTreeEntry.Alike server ((FileTreeEntry.newForDirectory update.repoPath).applyRepoMetadataUpdate update)

theorem restores_iff (roundTrips : texts.RoundTrips) (rooted : server.Rooted) (rootNormal : server.rootPath.Normal)
    (normal : ∀ k, (server.get k).isSome → k.Normal) :
    Restores texts server ↔ server.view server.rootPath = some (true, false, true) := by
  have decoded : texts.protoSnapshotToUpdate ⟨texts.toText server.rootPath, texts.fileTreeEntryToSnapshotProto server⟩ =
      some ⟨server.rootPath, [], (texts.fileTreeEntryToSnapshotProto server).filterMap texts.protoToEntryUpdate⟩ := by
    unfold PathTexts.protoSnapshotToUpdate
    rw [roundTrips _ rootNormal]
    rfl
  have applied : (FileTreeEntry.newForDirectory server.rootPath).applyRepoMetadataUpdate
      ⟨server.rootPath, [], (texts.fileTreeEntryToSnapshotProto server).filterMap texts.protoToEntryUpdate⟩ =
      restoreUpTo server (server.stateMap.stateMap.keys.length + 1) [server.rootPath] (FileTreeEntry.newForDirectory server.rootPath) :=
    decode_snapshotUpTo roundTrips rooted normal _ _ _
  unfold Restores
  rw [decoded]
  constructor
  · rintro ⟨update, isUpdate, alike⟩
    rw [← Option.some.inj isUpdate, applied] at alike
    rw [← alike.view]
    by_cases directory : (server.stateMap.getAsDirectory server.rootPath).isSome
    · obtain ⟨visited, restored⟩ := (newForDirectory_restored directory).run rooted
        (server.stateMap.stateMap.keys.length + 1) (by simp)
      rw [restored.view, if_pos rfl]
    · have childless : server.stateMap.children server.rootPath = [] :=
        if_pos (FileTreeMapStore.getAsDirectory_isNone.mpr directory)
      rw [restoreUpTo, if_pos childless, childless, childDirectories_nil]
      have nothingLeft : ∀ fuel client, restoreUpTo server fuel ([] ++ []) client = client := fun fuel _ => by cases fuel <;> rfl
      rw [nothingLeft, newForDirectory_view, if_pos rfl]
  · intro isRoot
    have directory := FileTreeEntry.directory_iff.mpr ⟨_, isRoot, rfl⟩
    obtain ⟨visited, restored⟩ := (newForDirectory_restored directory).run rooted
      (server.stateMap.stateMap.keys.length + 1) (by simp)
    refine ⟨_, rfl, ?_⟩
    dsimp only
    rw [applied]
    refine ⟨restored.rootPath, fun k => ?_⟩
    by_cases same : k = server.rootPath
    · rw [restored.view, if_pos same, same, isRoot]
    · exact restored.view_of_ne rooted same

/-- Batches whose subtrees fit converge, a single subtree exactly if it fits, and a snapshot gives the tree exactly if the
root's own flags are those of a fresh entry. -/
theorem remote_trees_converge {LocalPath : Type} [LocalPaths LocalPath] {texts : PathTexts} (roundTrips : texts.RoundTrips)
    (localNormal : ∀ (path : LocalPath) (stdPath : Path), LocalPaths.tryFromLocal path = some stdPath → stdPath.Normal) :
    (∀ (server client : FileTreeEntry) (lazyLoad : Bool) (update : RepoUpdate LocalPath) (disk : ℕ → LocalPath → Reading),
      FileTreeEntry.Mirrors server client → server.rootPath.Normal →
      Trace.Every (performMutation lazyLoad) (Fits lazyLoad) server (computeFileTreeMutations update disk) →
      Converges texts lazyLoad server client (computeFileTreeMutations update disk)) ∧
    (∀ (server client : FileTreeEntry) (lazyLoad : Bool) (dirPath : LocalPath) (dir : Path) (subtree : Entry),
      FileTreeEntry.Mirrors server client → server.rootPath.Normal → LocalPaths.tryFromLocal dirPath = some dir →
      subtree.path = dir → subtree.Named → (∀ state ∈ subtree.states, state.path.Normal) →
      (Converges texts lazyLoad server client [.addDirectorySubtree dirPath subtree] ↔
        Fits lazyLoad server (.addDirectorySubtree dirPath subtree))) ∧
    (∀ server : FileTreeEntry, server.Rooted → server.rootPath.Normal → (∀ k, (server.get k).isSome → k.Normal) →
      (Restores texts server ↔ server.view server.rootPath = some (true, false, true))) :=
  ⟨fun _ _ _ update disk mirrors rootNormal fits => batch_converges localNormal roundTrips mirrors rootNormal update disk fits,
    fun _ _ _ _ _ _ mirrors rootNormal isDir isPath named normal =>
      subtree_converges_iff localNormal roundTrips mirrors rootNormal isDir isPath named normal,
    fun _ rooted rootNormal normal => restores_iff roundTrips rooted rootNormal normal⟩

section Examples

instance (path : Path) : Decidable path.Normal := inferInstanceAs (Decidable (∀ name ∈ path, _))

instance : LocalPaths Path where
  tryFromLocal path := if path.Normal then some path else none
  extension _ := none

def unixTexts : PathTexts where
  toText path := '/' :: ['/'].intercalate path
  tryNew
    | '/' :: text => some ((text.splitOn '/').filter fun name => name ≠ [] ∧ name ≠ ['.'])
    | _ => none

theorem unixTexts_roundTrips : unixTexts.RoundTrips := by
  intro path normal
  show some ((List.splitOn '/' (['/'].intercalate path)).filter fun name => name ≠ [] ∧ name ≠ ['.']) = some path
  rw [Option.some_inj]
  cases path with
  | nil => rfl
  | cons name names =>
    rw [splitOn_intercalate _ (fun other member => (normal other member).2.1) (cons_ne_nil _ _)]
    refine List.filter_eq_self.mpr fun other member => ?_
    obtain ⟨some, -, noDot, -⟩ := normal other member
    exact decide_eq_true ⟨some, noDot⟩

theorem tryFromLocal_normal (path stdPath : Path) (isPath : LocalPaths.tryFromLocal path = some stdPath) : stdPath.Normal := by
  simp only [LocalPaths.tryFromLocal] at isPath
  split_ifs at isPath with normal
  exact Option.some.inj isPath ▸ normal

open FileTreeEntry (folder folder_named)

def repo : FileTreeEntry := .ofEntry (folder [['r']] ['a'])

theorem repo_mirrors : FileTreeEntry.Mirrors repo repo where
  rootPath := rfl
  view _ := rfl
  server := FileTreeEntry.ofEntry_rooted (folder_named (by decide))
  client := FileTreeEntry.ofEntry_rooted (folder_named (by decide))

/-- The file of the repository goes, and a directory and an ignored file come. -/
def moveIn : RepoUpdate Path := ⟨[[['r'], ['d']], [['r'], ['b']]], [[['r'], ['a']]], .empty⟩

def moveInDisk (_ : ℕ) (path : Path) : Reading :=
  if path = [['r'], ['d']] then ⟨true, false, true, some (folder [['r'], ['d']] ['x'])⟩ else ⟨true, true, false, none⟩

theorem moveIn_fits : Trace.Every (performMutation false) (Fits false) repo (computeFileTreeMutations moveIn moveInDisk) := by
  refine ⟨trivial, ?_, trivial, trivial⟩
  rintro _ ⟨⟩ - -
  refine ⟨rfl, folder_named (by decide), by decide, ?_, ?_, ?_⟩
  · decide +kernel
  · show FileTreeEntry.Operation.Below _ _ _
    decide +kernel
  · have nothing : ∀ state ∈ (folder [['r'], ['d']] ['x']).states,
        (performMutation false repo (.remove [['r'], ['a']] : FileTreeMutation Path)).view state.path = none := by decide +kernel
    intro state member flags found
    rw [nothing state member] at found
    cases found

theorem moveIn_converges : Converges unixTexts false repo repo (computeFileTreeMutations moveIn moveInDisk) ∧
    Restores unixTexts repo ∧ Converges unixTexts true repo repo
      [.addDirectorySubtree [['r'], ['d']] (folder [['r'], ['d']] ['x'])] := by
  obtain ⟨batch, single, snapshot⟩ := remote_trees_converge unixTexts_roundTrips tryFromLocal_normal
  have normal : ∀ k, (repo.get k).isSome → k.Normal := by
    intro k stored
    have keys : ∀ k ∈ repo.stateMap.stateMap.keys, k.Normal := by decide +kernel
    exact keys k (HashMap.get?_isSome_iff.mp stored)
  refine ⟨batch repo repo false moveIn moveInDisk repo_mirrors (by decide) moveIn_fits, ?_, ?_⟩
  · exact (snapshot repo repo_mirrors.server (by decide) normal).mpr (by decide +kernel)
  · refine (single repo repo true [['r'], ['d']] [['r'], ['d']] (folder [['r'], ['d']] ['x']) repo_mirrors (by decide) rfl rfl
      (folder_named (by decide)) (by decide)).mpr ?_
    rintro _ ⟨⟩ - -
    refine ⟨rfl, folder_named (by decide), by decide, by decide +kernel, ?_, ?_⟩
    · show FileTreeEntry.Operation.Below _ _ _
      decide +kernel
    · have nothing : ∀ state ∈ (folder [['r'], ['d']] ['x']).states, repo.view state.path = none := by decide +kernel
      intro state member flags found
      rw [nothing state member] at found
      cases found

def ignoring : FileTreeEntry := .ofEntry (.directory [['r']] [.directory [['r'], ['d']] [] true false] false true)

/-- The server loads the directory that a subtree is added to, the client does not. -/
theorem subtree_of_unloaded_diverges : ¬ ∀ (server client : FileTreeEntry) (update : RepoUpdate Path) (disk : ℕ → Path → Reading),
    FileTreeEntry.Mirrors server client → server.rootPath.Normal →
    Converges unixTexts false server client (computeFileTreeMutations update disk) := by
  intro all
  have rooted : ignoring.Rooted := by
    refine FileTreeEntry.ofEntry_rooted ⟨⟨Path.parent_eq_some_iff.mpr ⟨['d'], rfl⟩, trivial⟩, ?_, trivial⟩
    exact not_mem_nil
  have mirrors : FileTreeEntry.Mirrors ignoring ignoring := ⟨⟨rfl, fun _ => rfl⟩, rooted, rooted⟩
  have converges := all ignoring ignoring ⟨[[['r'], ['d'], ['e']]], [], .empty⟩
    (fun _ path => ⟨true, true, true, some (folder path ['x'])⟩) mirrors (by decide)
  have fits := (subtree_converges_iff tryFromLocal_normal unixTexts_roundTrips mirrors (by decide) rfl rfl
    (folder_named (by decide)) (by decide)).mp converges
  have isOpen : ignoring.Open [['r'], ['d'], ['e']] := by
    refine ⟨[['r'], ['d']], by decide, by decide, by decide +kernel, ?_⟩
    have above : ∀ q ∈ [['r'], ['d']].inits, ∀ flags, ignoring.view q = some flags → flags.1 = true := by decide +kernel
    exact fun q isAbove => above q ((mem_inits _ _).mpr isAbove)
  have loaded := (fits [['r'], ['d'], ['e']] rfl rfl isOpen).fits.loaded
  exact absurd loaded (by decide +kernel)

end Examples

end Warp.Remote
