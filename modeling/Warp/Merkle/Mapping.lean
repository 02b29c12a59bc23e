import Warp.Merkle.Updaters

namespace Warp.Merkle

open LeafToFragmentMetadata List

variable {H T : Type} [LinearOrder H]

section ApplyUpdate

variable {mapping : HashMap H (List FragmentMetadata)} {path : Path} {hash key : H}

theorem removeLocations_values (mapping : HashMap H (List FragmentMetadata)) (path : Path) (hash key : H) :
    (removeLocations mapping path hash).values key =
      (mapping.values key).filter fun metadata => ¬(key = hash ∧ metadata.absolutePath = path) := by
  by_cases same : key = hash
  · subst same
    simp only [true_and]
    unfold removeLocations HashMap.values
    cases found : mapping.get? key with
    | none =>
      dsimp only
      rw [found]
      rfl
    | some entry =>
      dsimp only
      by_cases empty : (entry.filter fun metadata => metadata.absolutePath ≠ path).isEmpty = true
      · rw [if_pos empty, HashMap.get?_remove, if_pos rfl]
        exact (List.isEmpty_iff.mp empty).symm
      · rw [if_neg empty, HashMap.get?_insert, if_pos rfl]
        rfl
  · simp only [same, false_and, not_false_eq_true, decide_true, filter_true]
    unfold removeLocations HashMap.values
    cases mapping.get? hash with
    | none => rfl
    | some entry =>
      dsimp only
      by_cases empty : (entry.filter fun metadata => metadata.absolutePath ≠ path).isEmpty = true
      · rw [if_pos empty, HashMap.get?_remove, if_neg same]
      · rw [if_neg empty, HashMap.get?_insert, if_neg same]

theorem removeLocations_inhabited (inhabited : mapping.Inhabited) (path : Path) (hash : H) :
    (removeLocations mapping path hash).Inhabited := by
  intro key found
  unfold removeLocations at found
  cases before : mapping.get? hash with
  | none =>
    rw [before] at found
    exact inhabited key found
  | some entry =>
    rw [before] at found
    dsimp only at found
    by_cases empty : (entry.filter fun metadata => metadata.absolutePath ≠ path).isEmpty = true
    · rw [if_pos empty, HashMap.get?_remove] at found
      by_cases same : key = hash
      · rw [if_pos same] at found
        cases found
      · rw [if_neg same] at found
        exact inhabited key found
    · rw [if_neg empty, HashMap.get?_insert] at found
      by_cases same : key = hash
      · rw [if_pos same, Option.some_inj] at found
        exact empty (List.isEmpty_iff.mpr found)
      · rw [if_neg same] at found
        exact inhabited key found

theorem removeHashes_values (hashes : List H) (mapping : HashMap H (List FragmentMetadata)) (path : Path) (key : H) :
    (hashes.foldl (fun mapping hash => removeLocations mapping path hash) mapping).values key =
      (mapping.values key).filter fun metadata => ¬(key ∈ hashes ∧ metadata.absolutePath = path) := by
  induction hashes generalizing mapping with
  | nil => simp
  | cons hash hashes ih =>
    rw [foldl_cons, ih, removeLocations_values, List.filter_filter]
    apply filter_congr
    intro metadata _
    rw [← Bool.decide_and, decide_eq_decide, mem_cons]
    tauto

theorem removeHashes_inhabited (hashes : List H) (inhabited : mapping.Inhabited) (path : Path) :
    (hashes.foldl (fun mapping hash => removeLocations mapping path hash) mapping).Inhabited := by
  induction hashes generalizing mapping with
  | nil => exact inhabited
  | cons hash hashes ih => exact ih (removeLocations_inhabited inhabited path hash)

def TakenBy (key : H) (metadata : FragmentMetadata) (entry : Path × List H) : Prop :=
  key ∈ entry.2 ∧ metadata.absolutePath = entry.1

instance (key : H) (metadata : FragmentMetadata) (entry : Path × List H) : Decidable (TakenBy key metadata entry) :=
  inferInstanceAs (Decidable (_ ∧ _))

theorem removeEntries_values (entries : List (Path × List H)) (mapping : HashMap H (List FragmentMetadata)) (key : H) :
    (entries.foldl (fun mapping entry =>
      entry.2.foldl (fun mapping hash => removeLocations mapping entry.1 hash) mapping) mapping).values key =
      (mapping.values key).filter fun metadata => ∀ entry ∈ entries, ¬TakenBy key metadata entry := by
  induction entries generalizing mapping with
  | nil => simp
  | cons entry entries ih =>
    rw [foldl_cons, ih, removeHashes_values, List.filter_filter]
    apply filter_congr
    intro metadata _
    rw [← Bool.decide_and, decide_eq_decide, forall_mem_cons]
    exact And.comm

theorem removeEntries_inhabited (entries : List (Path × List H)) (inhabited : mapping.Inhabited) :
    (entries.foldl (fun mapping entry =>
      entry.2.foldl (fun mapping hash => removeLocations mapping entry.1 hash) mapping) mapping).Inhabited := by
  induction entries generalizing mapping with
  | nil => exact inhabited
  | cons entry entries ih => exact ih (removeHashes_inhabited entry.2 inhabited entry.1)

theorem applyUpdate_values (self : LeafToFragmentMetadata H) (update : LeafToFragmentMetadataUpdates H) (key : H) :
    (self.applyUpdate update).mapping.values key =
      ((self.mapping.values key).filter fun metadata => ∀ entry ∈ update.toRemove.entries, ¬TakenBy key metadata entry) ++
        update.toInsert.values key := by
  unfold LeafToFragmentMetadata.applyUpdate
  dsimp only
  rw [HashMap.values_extendAll, removeEntries_values]

theorem applyUpdate_inhabited {self : LeafToFragmentMetadata H} {update : LeafToFragmentMetadataUpdates H}
    (inhabited : self.mapping.Inhabited) (added : update.toInsert.Inhabited) :
    (self.applyUpdate update).mapping.Inhabited :=
  (removeEntries_inhabited _ inhabited).extendAll added

end ApplyUpdate

section Tracks

variable {env : Env H} {before after gone : List (MerkleNode H T)} {made : List (Read H T)}
  {self : LeafToFragmentMetadata H} {update : LeafToFragmentMetadataUpdates H}

structure Holds (env : Env H) (files : List (MerkleNode H T)) (metadata : LeafToFragmentMetadata H) : Prop where
  values : ∃ reads : List (Read H T), (reads.map Prod.fst).Perm files ∧ (∀ read ∈ reads, Reads env read.1 read.2) ∧
    ∀ hash, (metadata.mapping.values hash).Perm (reads.flatMap (locations env hash))
  inhabited : metadata.mapping.Inhabited

omit [LinearOrder H] in
theorem mem_childHashes {node : MerkleNode H T} {content : Str} (reads : Reads env node content) {fragment : Chunker.Fragment}
    (member : fragment ∈ fragmentsOf env node.absolutePath content) : env.fromBytes fragment.content ∈ node.childHashes := by
  unfold MerkleNode.childHashes
  rw [reads.children, List.map_map]
  exact List.mem_map.mpr ⟨fragment, member, rfl⟩

theorem of_mem_locations {read : Read H T} (reads : Reads env read.1 read.2) {hash : H} {metadata : FragmentMetadata}
    (member : metadata ∈ locations env hash read) :
    metadata.absolutePath = read.1.absolutePath ∧ hash ∈ read.1.childHashes := by
  rcases List.mem_map.mp member with ⟨fragment, isFragment, rfl⟩
  rcases List.mem_filter.mp isFragment with ⟨inFile, same⟩
  have filePath := env.chunkCode_filePath _ _ fragment (List.mem_filter.mp inFile).1
  refine ⟨filePath, ?_⟩
  rw [← of_decide_eq_true same]
  exact mem_childHashes reads inFile

theorem flatMap_filter_eq {α β : Type} (l : List α) (p : α → Bool) (f : α → List β) :
    (l.filter p).flatMap f = l.flatMap fun a => if p a = true then f a else [] := by
  induction l with
  | nil => rfl
  | cons a l ih =>
    rw [flatMap_cons, ← ih, filter_cons]
    by_cases holds : p a = true
    · rw [if_pos holds, if_pos holds, flatMap_cons]
    · rw [if_neg holds, if_neg holds, nil_append]

theorem Holds.applyUpdate {fresh : MerkleNode H T → Prop} {paths : HashSet Path} (holds : Holds env before self)
    (distinct : (before.map MerkleNode.absolutePath).Nodup)
    (changed : Changed env fresh paths .empty update before after gone made) :
    Holds env after (self.applyUpdate update) := by
  rcases holds.values with ⟨reads, files, areRead, values⟩
  rcases changed.files with ⟨kept, beforeFiles, afterFiles⟩
  let stays : Read H T → Bool := fun read => read.1.absolutePath ∉ gone.map MerkleNode.absolutePath
  have taken : ∀ entry, entry ∈ update.toRemove.entries ↔
      ∃ node ∈ gone, node.absolutePath = entry.1 ∧ node.childHashes = entry.2 := by
    intro entry
    rw [← HashMap.get?_eq_some_iff, changed.recorded.removed]
    exact or_iff_right nofun
  have keptFiles : ((reads.filter stays).map Prod.fst).Perm kept := by
    have parts := (files.trans beforeFiles).filter fun node => node.absolutePath ∉ gone.map MerkleNode.absolutePath
    rw [List.filter_map, filter_append] at parts
    have noneGone : gone.filter (fun node => decide (node.absolutePath ∉ gone.map MerkleNode.absolutePath)) = [] := by
      apply List.filter_eq_nil_iff.mpr
      intro node isGone
      simpa using ⟨node, isGone, rfl⟩
    have allKept : kept.filter (fun node => decide (node.absolutePath ∉ gone.map MerkleNode.absolutePath)) = kept := by
      apply List.filter_eq_self.mpr
      intro node isKept
      apply decide_eq_true
      have apart := (beforeFiles.map MerkleNode.absolutePath).nodup_iff.mp distinct
      rw [map_append] at apart
      exact fun isGone => (List.nodup_append.mp apart).2.2 _ (List.mem_map_of_mem isKept) _ isGone rfl
    rw [noneGone, allKept, append_nil] at parts
    exact parts
  have keptLocations : ∀ hash, (reads.flatMap (locations env hash)).filter
      (fun metadata => ∀ entry ∈ update.toRemove.entries, ¬TakenBy hash metadata entry) =
      (reads.filter stays).flatMap (locations env hash) := by
    intro hash
    rw [filter_flatMap, flatMap_filter_eq]
    apply flatMap_congr
    intro read isRead
    have ofLocation : ∀ metadata ∈ locations env hash read,
        metadata.absolutePath = read.1.absolutePath ∧ hash ∈ read.1.childHashes :=
      fun _ member => of_mem_locations (areRead read isRead) member
    by_cases isGone : read.1.absolutePath ∈ gone.map MerkleNode.absolutePath
    · have leaves : stays read = false := decide_eq_false (not_not.mpr isGone)
      rw [leaves, if_neg Bool.false_ne_true]
      apply List.filter_eq_nil_iff.mpr
      intro metadata member untaken
      rcases ofLocation metadata member with ⟨samePath, inHashes⟩
      rcases List.mem_map.mp isGone with ⟨node, nodeGone, nodePath⟩
      -- the file of the path is the one that was read
      have nodeBefore : node ∈ before := beforeFiles.mem_iff.mpr (mem_append_right _ nodeGone)
      have readBefore : read.1 ∈ before := files.mem_iff.mp (List.mem_map_of_mem isRead)
      have same := inj_on_of_nodup_map distinct nodeBefore readBefore nodePath
      have isEntry := (taken (node.absolutePath, node.childHashes)).mpr ⟨node, nodeGone, rfl, rfl⟩
      rw [← same] at samePath inHashes
      exact of_decide_eq_true untaken _ isEntry ⟨inHashes, samePath⟩
    · have remains : stays read = true := decide_eq_true isGone
      rw [remains, if_pos rfl]
      apply List.filter_eq_self.mpr
      intro metadata member
      apply decide_eq_true
      intro entry isEntry takes
      rcases (taken entry).mp isEntry with ⟨node, nodeGone, samePath, -⟩
      apply isGone
      rw [← (ofLocation metadata member).1, takes.2, ← samePath]
      exact List.mem_map_of_mem nodeGone
  constructor
  · refine ⟨reads.filter stays ++ made, ?_, ?_, ?_⟩
    · rw [map_append]
      exact (keptFiles.append_right _).trans afterFiles.symm
    · rw [forall_mem_append]
      exact ⟨fun read member => areRead read (List.mem_filter.mp member).1, changed.recorded.reads⟩
    · intro hash
      rw [applyUpdate_values, flatMap_append, ← keptLocations]
      exact ((values hash).filter _).append (changed.recorded.inserted hash)
  · apply applyUpdate_inhabited holds.inhabited
    apply changed.recorded.inhabited
    nofun

end Tracks

section Run

variable (env : Env H)

/-- A change of the tree with the state of the file system it reads. -/
inductive Update (T : Type) where
  | upsert (fs : FileSystem T) (paths : HashSet Path)
  | remove (paths : HashSet Path)

def MerkleTree.update (self : MerkleTree H T) : Update T → MerkleTree H T × Except Error (TreeUpdateResult H T)
  | .upsert fs paths => self.upsertFiles env fs paths
  | .remove paths => self.removeFiles env paths

def run (tree : MerkleTree H T) (metadata : LeafToFragmentMetadata H) :
    List (Update T) → Except Error (MerkleTree H T × LeafToFragmentMetadata H)
  | [] => .ok (tree, metadata)
  | update :: updates => do
    let result ← (tree.update env update).2
    run (tree.update env update).1 (metadata.applyUpdate result.leafToFragmentMetaUpdates) updates

def leafRanges (hash : H) (file : MerkleNode H T) : List (Path × (ℕ × ℕ)) :=
  (file.children.filter fun leaf => leaf.hash = hash).filterMap fun leaf =>
    match leaf.nodeId with
    | .fragment path contentRange => some (path, contentRange)
    | _ => none

/-- The mapping associates every hash with the locations of its fragments in the tree, and no others. -/
structure Tracks (tree : MerkleTree H T) (metadata : LeafToFragmentMetadata H) : Prop where
  values : ∃ reads : List (Read H T), (reads.map Prod.fst).Perm tree.root.files ∧
    (∀ read ∈ reads, Reads env read.1 read.2) ∧
    ∀ hash, (metadata.mapping.values hash).Perm (reads.flatMap (locations env hash))
  ranges : ∀ hash, ((metadata.mapping.values hash).map fun fragment =>
    (fragment.absolutePath, fragment.location.byteRange)).Perm (tree.root.files.flatMap (leafRanges hash))
  keys : ∀ hash, (metadata.mapping.get? hash).isSome = true ↔ ∃ file ∈ tree.root.files, hash ∈ file.childHashes

variable {env} {tree : MerkleTree H T} {metadata : LeafToFragmentMetadata H}

theorem exists_location {read : Read H T} (reads : Reads env read.1 read.2) {hash : H}
    (member : hash ∈ read.1.childHashes) : ∃ location, location ∈ locations env hash read := by
  unfold MerkleNode.childHashes at member
  rw [reads.children, List.map_map, List.mem_map] at member
  rcases member with ⟨fragment, isFragment, same⟩
  exact ⟨_, List.mem_map_of_mem (List.mem_filter.mpr ⟨isFragment, decide_eq_true same⟩)⟩

theorem map_locations {read : Read H T} (reads : Reads env read.1 read.2) (hash : H) :
    (locations env hash read).map (fun fragment => (fragment.absolutePath, fragment.location.byteRange)) =
      leafRanges hash read.1 := by
  unfold leafRanges locations
  rw [reads.children, List.map_map, List.filter_map, filterMap_map, ← filterMap_eq_map]
  rfl

theorem Holds.tracks (holds : Holds env tree.root.files metadata) : Tracks env tree metadata := by
  rcases holds.values with ⟨reads, files, areRead, values⟩
  refine ⟨holds.values, ?_, ?_⟩
  · intro hash
    refine ((values hash).map _).trans ?_
    rw [map_flatMap]
    have ranges : reads.flatMap (fun read => (locations env hash read).map fun fragment =>
        (fragment.absolutePath, fragment.location.byteRange)) = (reads.map Prod.fst).flatMap (leafRanges hash) := by
      rw [flatMap_map]
      exact flatMap_congr fun read isRead => map_locations (areRead read isRead) hash
    rw [ranges]
    exact files.flatMap_right _
  intro hash
  have some : (metadata.mapping.get? hash).isSome = true ↔ ∃ location, location ∈ metadata.mapping.values hash := by
    unfold HashMap.values
    cases found : metadata.mapping.get? hash with
    | none => exact iff_of_false nofun nofun
    | some entry =>
      refine iff_of_true rfl (exists_mem_of_ne_nil entry ?_)
      intro empty
      rw [empty] at found
      exact holds.inhabited hash found
  rw [some]
  constructor
  · intro present
    rcases present with ⟨location, member⟩
    rcases List.mem_flatMap.mp ((values hash).mem_iff.mp member) with ⟨read, isRead, inRead⟩
    exact ⟨read.1, files.mem_iff.mp (List.mem_map_of_mem isRead), (of_mem_locations (areRead read isRead) inRead).2⟩
  · intro present
    rcases present with ⟨file, isFile, inHashes⟩
    rcases List.mem_map.mp (files.mem_iff.mpr isFile) with ⟨read, isRead, rfl⟩
    rcases exists_location (areRead read isRead) inHashes with ⟨location, inRead⟩
    exact ⟨location, (values hash).mem_iff.mpr (List.mem_flatMap.mpr ⟨read, isRead, inRead⟩)⟩

structure Rooted (tree : MerkleTree H T) : Prop where
  shaped : tree.root.Shaped
  isDirectory : tree.root.isDirectory = true

omit [LinearOrder H] in
theorem files_of_emptied {node : MerkleNode H T} {path : Path} (isDirectory : node.nodeId = .directory path)
    (empty : node.children = []) : node.files = [] ∧ node.Shaped := by
  rcases node with ⟨hash, children, nodeId⟩
  have isDirectory : nodeId = .directory path := isDirectory
  have empty : children = [] := empty
  subst isDirectory empty
  exact ⟨rfl, .directory hash [] path nofun nofun nodup_nil⟩

theorem Walked.rooted {fresh ready : MerkleNode H T → Prop} {keeps : Prop} {paths : HashSet Path} {u : LeafToFragmentMetadataUpdates H}
    {step : Step H T} (rooted : Rooted tree) (walked : Walked env fresh ready keeps paths u tree.root step) :
    Rooted ⟨step.node⟩ ∧ step.node.files = step.files := by
  unfold Step.files
  by_cases deleted : step.result = .deleted
  · rcases walked.emptied deleted rooted.isDirectory with ⟨sameId, empty⟩
    have isDirectory := rooted.isDirectory
    rw [if_pos deleted]
    cases found : tree.root.nodeId with
    | directory path =>
      rcases files_of_emptied (sameId.trans found) empty with ⟨noFiles, shaped⟩
      refine ⟨⟨shaped, ?_⟩, noFiles⟩
      unfold MerkleNode.isDirectory
      rw [sameId, found]
    | file =>
      unfold MerkleNode.isDirectory at isDirectory
      rw [found] at isDirectory
      cases isDirectory
    | fragment =>
      unfold MerkleNode.isDirectory at isDirectory
      rw [found] at isDirectory
      cases isDirectory
  · rw [if_neg deleted]
    have kind := congrArg Prod.fst (walked.key deleted)
    exact ⟨⟨walked.shaped deleted, kind.trans rooted.isDirectory⟩, rfl⟩

omit [LinearOrder H] in
theorem finish_isOk (step : Step H T) (valid : step.mask.ValidFor step.node) :
    ∃ nodeLens, MerkleTree.finish step = (⟨step.node⟩, .ok ⟨nodeLens, step.updates⟩) := by
  unfold MerkleTree.finish
  dsimp only
  by_cases same : step.result = .noChange
  · rw [if_pos same]
    exact ⟨_, rfl⟩
  · rw [if_neg same]
    rcases nodesFromQueue_isOk [(step.node, step.mask)] [] (List.forall_mem_singleton.mpr valid) with ⟨nodes, found⟩
    refine ⟨nodes, ?_⟩
    unfold MerkleTree.nodesFromMask
    rw [found]
    rfl

theorem Holds.update (rooted : Rooted tree) (holds : Holds env tree.root.files metadata) (update : Update T) :
    ∃ result, (tree.update env update).2 = .ok result ∧ Rooted (tree.update env update).1 ∧
      Holds env (tree.update env update).1.root.files (metadata.applyUpdate result.leafToFragmentMetaUpdates) := by
  have follows : ∀ {updater : Updater H T} {fresh ready : MerkleNode H T → Prop} {keeps : Prop}, Lawful env updater fresh ready keeps →
      ∀ paths, ∃ result, (MerkleTree.finish (updateFiles env updater paths (.all 0) .empty tree.root)).2 = .ok result ∧
        Rooted (MerkleTree.finish (updateFiles env updater paths (.all 0) .empty tree.root)).1 ∧
        Holds env (MerkleTree.finish (updateFiles env updater paths (.all 0) .empty tree.root)).1.root.files
          (metadata.applyUpdate result.leafToFragmentMetaUpdates) := by
    intro updater fresh ready keeps lawful paths
    have walked := updateFiles_walked lawful tree.root 0 paths .empty rooted.shaped fun _ _ => rfl
    rcases finish_isOk _ walked.mask with ⟨nodeLens, finished⟩
    rcases walked.rooted rooted with ⟨nextRooted, files⟩
    rcases walked.changed with ⟨gone, made, changed⟩
    rw [finished]
    refine ⟨_, rfl, nextRooted, ?_⟩
    dsimp only
    rw [files]
    exact holds.applyUpdate rooted.shaped.nodup_paths changed
  cases update with
  | upsert fs paths => exact follows upserter_lawful paths
  | remove paths => exact follows remover_lawful paths

theorem Holds.tryNew {fs : FileSystem T} {path : Path} {entries : List Entry}
    (shaped : (Entry.directory path entries).Shaped)
    (built : MerkleTree.tryNew env fs (.directory path entries) = .ok (tree, metadata)) :
    Rooted tree ∧ Holds env tree.root.files metadata := by
  unfold MerkleTree.tryNew at built
  cases made : newEntry env fs (.directory path entries) with
  | error error =>
    rw [made] at built
    cases built
  | ok result =>
    rcases result with ⟨root, mappingUpdate⟩
    rw [made] at built
    injection built with both
    injection both with sameTree sameMetadata
    subst sameTree sameMetadata
    rcases newEntry_spec _ root mappingUpdate made with ⟨reads, makes⟩
    have kind : root.isDirectory = true := congrArg Prod.fst makes.key
    refine ⟨⟨makes.shaped shaped, kind⟩, ⟨reads, makes.files.symm, makes.adds.reads, ?_⟩, makes.adds.inhabited⟩
    exact makes.adds.inserted

/-- The mapping tracks the tree over every run. -/
theorem run_tracks {fs : FileSystem T} {path : Path} {entries : List Entry} (shaped : (Entry.directory path entries).Shaped)
    (built : MerkleTree.tryNew env fs (.directory path entries) = .ok (tree, metadata)) (updates : List (Update T)) :
    ∃ finalTree finalMetadata, run env tree metadata updates = .ok (finalTree, finalMetadata) ∧
      Tracks env finalTree finalMetadata := by
  rcases Holds.tryNew shaped built with ⟨rooted, holds⟩
  clear built
  induction updates generalizing tree metadata with
  | nil => exact ⟨tree, metadata, rfl, holds.tracks⟩
  | cons update updates ih =>
    rcases holds.update rooted update with ⟨result, updated, nextRooted, nextHolds⟩
    rcases ih nextRooted nextHolds with ⟨finalTree, finalMetadata, ran, tracks⟩
    refine ⟨finalTree, finalMetadata, ?_, tracks⟩
    rw [run, updated]
    exact ran

theorem run_tracks_edited :
    let env : Env ℕ := ⟨List.sum, List.length, id, fun code path => [⟨code, 0, 0, 0, code.length, path⟩],
      fun _ _ fragment member => by rw [List.mem_singleton.mp member], true⟩
    let fs : Str → FileSystem Unit := fun content =>
      ⟨fun _ => false, fun _ => true, fun _ => some (content.length, some ()), fun _ => some content⟩
    let paths : HashSet Path := ⟨[[['r'], ['a']]], nodup_singleton _⟩
    match MerkleTree.tryNew env (fs ['x']) (.directory [['r']] [.file [['r'], ['a']]]) with
    | .ok (tree, metadata) => ∃ finalTree finalMetadata,
      run env tree metadata [.upsert (fs ['x', 'y']) paths, .remove paths] = .ok (finalTree, finalMetadata) ∧
        Tracks env finalTree finalMetadata
    | .error _ => False := by
  intro env fs paths
  refine @run_tracks _ _ _ env _ _ (fs ['x']) _ [.file [['r'], ['a']]] ?_ rfl _
  refine .directory _ _ ?_ ?_ (nodup_singleton _)
  · exact List.forall_mem_singleton.mpr rfl
  · exact List.forall_mem_singleton.mpr (.file _)

end Run

end Warp.Merkle
