import Warp.Merkle.Repository

namespace Warp.Merkle

open List

variable {H T : Type}

variable {node : MerkleNode H T}

theorem Populated.of_files {excused : Path → Prop} (populated : Populated excused node) (shaped : node.Shaped)
    (below : ∀ dir, node.Takes dir → excused dir → node.isDirectory = true → ∃ file ∈ node.files, Below dir file.absolutePath) :
    Populated (fun _ => False) node := by
  induction populated with
  | file node isFile => exact .file node isFile
  | directory hash children path some populated ih =>
    rw [MerkleNode.files_directory] at below
    cases shaped with
    | directory _ _ _ located shaped distinct =>
      refine .directory _ _ _ ?_ ?_
      · rcases some with some | isExcused
        · exact .inl some
        · rcases below path (prefix_refl path) isExcused rfl with ⟨file, isFile, -⟩
          rcases List.mem_flatMap.mp isFile with ⟨child, isChild, -⟩
          exact .inl (ne_nil_of_mem isChild)
      · intro child isChild
        apply ih child isChild (shaped child isChild)
        intro dir takes isExcused isDirectory
        rcases MerkleNode.Shaped.takes_parent (located child isChild) takes with ⟨isPrefix, -, childPrefix⟩
        rcases below dir isPrefix isExcused rfl with ⟨file, isFile, fileBelow⟩
        rcases List.mem_flatMap.mp isFile with ⟨other, isOther, inOther⟩
        have otherTakes := (shaped other isOther).takes_of_mem_files inOther
        have childTakes : child.Takes file.absolutePath := by
          cases shaped child isChild with
          | file => cases isDirectory
          | directory => exact childPrefix.trans fileBelow.1
        have samePath := MerkleNode.Shaped.siblings_take (located child isChild) (located other isOther) childTakes otherTakes
        have sameKind : other.isDirectory = true := by
          cases shaped other isOther with
          | directory => rfl
          | file =>
            rw [MerkleNode.files_of_isFile rfl, mem_singleton] at inOther
            subst inOther
            rw [samePath] at childPrefix
            exact absurd (fileBelow.1.eq_of_length_le childPrefix.length_le) (Ne.symm fileBelow.2)
        have same := eq_of_key_eq distinct isChild isOther (Prod.ext (sameKind.trans isDirectory.symm) samePath.symm)
        rw [same] at inOther
        exact ⟨file, inOther, fileBelow⟩

theorem below_of_key {file : MerkleNode H T} {root : Path} (shaped : node.Shaped) (key : node.key = (true, root))
    (member : file ∈ node.files) : Below root file.absolutePath := by
  cases shaped with
  | file => cases congrArg Prod.fst key
  | directory hash children path located childrenShaped distinct =>
    have samePath : path = root := congrArg Prod.snd key
    rw [← samePath]
    exact below_of_mem_files (.directory hash children path located childrenShaped distinct) member

theorem takes_of_key {root path : Path} (shaped : node.Shaped) (key : node.key = (true, root))
    (isPrefix : root <+: path) : node.Takes path := by
  cases shaped with
  | file => cases congrArg Prod.fst key
  | directory hash children dir =>
    have samePath : dir = root := congrArg Prod.snd key
    subst samePath
    exact isPrefix

section Changes

variable [LinearOrder H] (env : Env H) (root : Path)

def Update.paths : Update T → HashSet Path
  | .upsert _ paths => paths
  | .remove paths => paths

structure Change (T : Type) where
  update : Update T
  repository : Repository

structure Covers (before : Repository) (change : Change T) : Prop where
  prefixFree : PrefixFree change.repository
  represents : ∀ fs paths, change.update = .upsert fs paths → Represents fs change.repository
  covers : ∀ path, before.get? path ≠ change.repository.get? path → path ∈ change.update.paths

/-- An update leaves only directories without indexed files for which all of its paths were indexed. -/
structure Clean (before : Repository) (change : Change T) : Prop where
  indexed : ∃ path, Indexed env root change.repository path
  upsert : ∀ fs paths, change.update = .upsert fs paths → ∀ dir,
    (∃ path, Indexed env root before path ∧ Below dir path) →
    (∀ path, Indexed env root change.repository path → ¬Below dir path) →
    ∀ path ∈ paths, dir <+: path → Indexed env root before path
  remove : ∀ paths, change.update = .remove paths → ∀ path ∈ paths, ¬Indexed env root change.repository path

variable {env root} {before : Repository} {change : Change T} {tree : MerkleTree H T}

theorem Indexes.walked {fresh ready : MerkleNode H T → Prop} {keeps : Prop} {paths : HashSet Path}
    {u : LeafToFragmentMetadataUpdates H} {step : Step H T} {after : Repository} (prefixFree : PrefixFree before)
    (indexes : Indexes env root before tree.root) (walked : Walked env fresh ready keeps paths u tree.root step)
    (covers : ∀ path, before.get? path ≠ after.get? path → path ∈ paths)
    (sound : ∀ file, fresh file → Below root file.absolutePath →
      ∃ content, IndexedAs env root after file.absolutePath content ∧ Reads env file content)
    (complete : ∀ path ∈ paths, ∀ content, IndexedAs env root after path content →
      ∃ file ∈ step.files, file.absolutePath = path ∧ Reads env file content)
    (some : ∃ path, Indexed env root after path)
    (excused : ∀ dir, Excused keeps paths tree.root dir → ∃ path, Indexed env root after path ∧ Below dir path) :
    Indexes env root after step.node := by
  have clear := indexes.clear prefixFree
  rcases walked.changed with ⟨gone, made, changed⟩
  have unchanged : ∀ path, path ∉ paths → ∀ content, IndexedAs env root before path content ↔
      IndexedAs env root after path content := by
    intro path outside content
    have same : before.get? path = after.get? path := of_not_not fun differs => outside (covers path differs)
    unfold IndexedAs
    rw [same]
  have allComplete : ∀ path content, IndexedAs env root after path content →
      ∃ file ∈ step.files, file.absolutePath = path ∧ Reads env file content := by
    intro path content indexed
    by_cases inPaths : path ∈ paths
    · exact complete path inPaths content indexed
    · rcases indexes.complete path content ((unchanged path inPaths content).mpr indexed) with ⟨file, isFile, rfl, reads⟩
      rcases changed.files with ⟨kept, beforeFiles, afterFiles⟩
      rcases List.mem_append.mp (beforeFiles.mem_iff.mp isFile) with isKept | isGone
      · exact ⟨file, afterFiles.mem_iff.mpr (mem_append_left _ isKept), rfl, reads⟩
      · exact absurd (changed.gone file isGone) inPaths
  have stays : step.result ≠ .deleted := by
    intro deleted
    rcases some with ⟨path, content, indexed⟩
    rcases allComplete path content indexed with ⟨file, isFile, -⟩
    unfold Step.files at isFile
    rw [if_pos deleted] at isFile
    cases isFile
  have files : step.files = step.node.files := if_neg stays
  rw [files] at allComplete
  have key := (walked.key stays).trans indexes.key
  have shaped := walked.shaped stays
  refine ⟨key, shaped, walked.right stays indexes.right, ?_, ?_, allComplete⟩
  · apply (walked.populated stays clear).of_files shaped
    intro dir _ isExcused _
    rcases excused dir isExcused with ⟨path, ⟨content, indexed⟩, below⟩
    rcases allComplete path content indexed with ⟨file, isFile, samePath, -⟩
    rw [← samePath] at below
    exact ⟨file, isFile, below⟩
  · intro file isFile
    have inStep : file ∈ step.files := files ▸ isFile
    by_cases inPaths : file.absolutePath ∈ paths
    · exact sound file (walked.updated clear file inStep inPaths) (below_of_key shaped key isFile)
    · rcases changed.old_or_fresh inStep with old | new
      · rcases indexes.sound file old with ⟨content, indexed, reads⟩
        exact ⟨content, (unchanged _ inPaths content).mp indexed, reads⟩
      · exact absurd new.2 inPaths

theorem Indexes.update (threadpool : env.threadpool = true) (prefixFree : PrefixFree before)
    (indexes : Indexes env root before tree.root) (covers : Covers before change) (clean : Clean env root before change) :
    Indexes env root change.repository (tree.update env change.update).1.root := by
  rcases change with ⟨_ | paths, after⟩
  · rename_i fs paths
    have represents := covers.represents fs paths rfl
    have walked := updateFiles_walked (@upserter_lawful _ _ _ env fs) tree.root 0 paths .empty indexes.shaped
      fun _ _ => rfl
    apply indexes.walked prefixFree walked covers.covers
    · intro file isFresh below
      rcases isFresh with ⟨v, made⟩
      rcases represents.indexed_of_newFile below made with ⟨content, indexed, reads, -⟩
      exact ⟨content, indexed, reads⟩
    · intro path inPaths content indexed
      rcases represents.newFile_of_indexed indexed with ⟨file, v, made, reads, rfl⟩
      rcases indexed.2 with ⟨size, found, -⟩
      rcases represents.file _ _ found with ⟨isDir, pathExists, -⟩
      have ready : Ready env fs file := ⟨threadpool, isDir, pathExists, v, made⟩
      have takes := takes_of_key indexes.shaped indexes.key indexed.1.1
      refine ⟨file, walked.complete (indexes.clear prefixFree) file ready inPaths takes ?_, rfl, reads⟩
      · -- a file where a directory was is no file of before
        intro other isOther otherBelow
        rcases indexes.sound other isOther with ⟨otherContent, otherIndexed, -⟩
        have noneBelow : ∀ path, Indexed env root after path → ¬Below file.absolutePath path := by
          intro path isIndexed pathBelow
          rcases isIndexed with ⟨pathContent, pathIndexed⟩
          exact pathBelow.2 (covers.prefixFree _ indexed.mem_keys _ pathIndexed.mem_keys pathBelow.1).symm
        rcases clean.upsert fs paths rfl _ ⟨_, ⟨otherContent, otherIndexed⟩, otherBelow⟩ noneBelow _ inPaths
          (prefix_refl _) with ⟨oldContent, oldIndexed⟩
        exact otherBelow.2 (prefixFree _ oldIndexed.mem_keys _ otherIndexed.mem_keys otherBelow.1).symm
    · exact clean.indexed
    · intro dir excused
      rcases excused with ⟨-, -, ⟨file, isFile, below⟩, path, inPaths, isPrefix, apart⟩
      rcases indexes.sound file isFile with ⟨content, indexed, -⟩
      by_contra none
      rw [not_exists] at none
      have noneBelow : ∀ other, Indexed env root after other → ¬Below dir other := fun other isIndexed otherBelow =>
        none other ⟨isIndexed, otherBelow⟩
      rcases clean.upsert fs paths rfl dir ⟨_, ⟨content, indexed⟩, below⟩ noneBelow path inPaths isPrefix with
        ⟨oldContent, oldIndexed⟩
      rcases indexes.complete path oldContent oldIndexed with ⟨own, isOwn, samePath, -⟩
      exact apart own isOwn samePath
  · have walked := updateFiles_walked (@remover_lawful _ T _ env) tree.root 0 paths .empty indexes.shaped
      fun _ _ => rfl
    apply indexes.walked prefixFree walked covers.covers
    · exact fun _ => False.elim
    · intro path inPaths content indexed
      exact absurd ⟨content, indexed⟩ (clean.remove paths rfl path inPaths)
    · exact clean.indexed
    · exact fun dir excused => excused.1.elim

variable (env root)

structure Synced (repository : Repository) (tree : MerkleTree H T) : Prop where
  right : Right env tree.root
  once : (tree.root.files.map MerkleNode.absolutePath).Nodup
  files : ∀ path, (∃ file ∈ tree.root.files, file.absolutePath = path) ↔ Indexed env root repository path
  populated : Populated (fun _ => False) tree.root
  rebuilt : ∀ (fs : FileSystem T) (entries : List Entry), Represents fs repository → Lists root repository entries →
    ∃ built metadata, MerkleTree.tryNew env fs (.directory root entries) = .ok (built, metadata) ∧
      built.root.hash = tree.root.hash

def CleanRun (before : Repository) : List (Change T) → Prop
  | [] => True
  | change :: changes => Covers before change ∧ Clean env root before change ∧ CleanRun change.repository changes

def treeAfter (tree : MerkleTree H T) (changes : List (Change T)) : MerkleTree H T :=
  changes.foldl (fun tree change => (tree.update env change.update).1) tree

def repositoryAfter (before : Repository) (changes : List (Change T)) : Repository :=
  changes.foldl (fun _ change => change.repository) before

variable {env root}

theorem Indexes.synced {repository : Repository} (threadpool : env.threadpool = true)
    (indexes : Indexes env root repository tree.root) : Synced env root repository tree := by
  refine ⟨indexes.right, indexes.shaped.nodup_paths, ?_, indexes.populated, ?_⟩
  · intro path
    constructor
    · intro has
      rcases has with ⟨file, isFile, rfl⟩
      rcases indexes.sound file isFile with ⟨content, indexed, -⟩
      exact ⟨content, indexed⟩
    · intro isIndexed
      rcases isIndexed with ⟨content, indexed⟩
      rcases indexes.complete path content indexed with ⟨file, isFile, samePath, -⟩
      exact ⟨file, isFile, samePath⟩
  · intro fs entries represents lists
    rcases exists_mem_files indexes.populated with ⟨file, isFile⟩
    rcases indexes.sound file isFile with ⟨content, indexed, -⟩
    rcases newEntry_isOk threadpool represents lists ⟨content, indexed⟩ with ⟨node, v, made⟩
    refine ⟨⟨node⟩, ⟨v.toInsert⟩, ?_, (newEntry_indexes represents lists made).hash_eq indexes⟩
    unfold MerkleTree.tryNew
    rw [made]
    rfl

/-- Over every clean run the tree is the one that would be built from scratch. -/
theorem run_synced {fs : FileSystem T} {entries : List Entry} {metadata : LeafToFragmentMetadata H}
    (prefixFree : PrefixFree before) (represents : Represents fs before) (lists : Lists root before entries)
    (built : MerkleTree.tryNew env fs (.directory root entries) = .ok (tree, metadata)) (changes : List (Change T))
    (clean : CleanRun env root before changes) :
    Synced env root (repositoryAfter before changes) (treeAfter env tree changes) := by
  cases made : newEntry env fs (.directory root entries) with
  | error error =>
    unfold MerkleTree.tryNew at built
    rw [made] at built
    cases built
  | ok result =>
    rcases result with ⟨node, v⟩
    have threadpool := threadpool_of_newEntry made
    have sameTree : node = tree.root := by
      unfold MerkleTree.tryNew at built
      rw [made] at built
      injection built with both
      injection both with sameTree
      rw [← sameTree]
    have indexes := newEntry_indexes represents lists made
    rw [sameTree] at indexes
    clear represents lists built made sameTree
    induction changes generalizing before tree with
    | nil => exact indexes.synced threadpool
    | cons change changes ih =>
      rcases clean with ⟨covers, cleanChange, cleanRest⟩
      exact ih covers.prefixFree cleanRest (indexes.update threadpool prefixFree covers cleanChange)

end Changes

def encodingEnv : Env ℕ where
  fromHashes hashes := 2 * Encodable.encode hashes
  fromBytes content := 2 * Encodable.encode (content.map Char.toNat) + 1
  contentsHash := id
  chunkCode code path := [⟨code, 0, 0, 0, code.length, path⟩]
  chunkCode_filePath code path fragment member := by rw [List.mem_singleton.mp member]
  threadpool := true

theorem fromHashes_injective : Function.Injective encodingEnv.fromHashes := by
  intro hashes others same
  have same : 2 * Encodable.encode hashes = 2 * Encodable.encode others := same
  exact Encodable.encode_injective (by omega)

theorem fromBytes_injective : Function.Injective encodingEnv.fromBytes := by
  intro content other same
  have same : 2 * Encodable.encode (content.map Char.toNat) + 1 = 2 * Encodable.encode (other.map Char.toNat) + 1 := same
  have codes : content.map Char.toNat = other.map Char.toNat := Encodable.encode_injective (by omega)
  have injective : Function.Injective Char.toNat := fun _ _ same => Char.ext (UInt32.toNat_inj.mp same)
  exact List.map_injective_iff.mpr injective codes

theorem run_synced_rewritten :
    let file : Path := [['r'], ['d'], ['a']]
    let before : Repository := HashMap.empty.insert file ⟨1, some ['a']⟩
    let after : Repository := HashMap.empty.insert file ⟨2, some ['a', 'b']⟩
    let paths : HashSet Path := ⟨[file], nodup_singleton _⟩
    match MerkleTree.tryNew encodingEnv (fileSystem before)
      (.directory [['r']] [.directory [['r'], ['d']] [.file file]]) with
    | .ok (tree, _) => Synced encodingEnv [['r']] after
      (treeAfter encodingEnv tree [⟨.upsert (fileSystem after) paths, after⟩])
    | .error _ => False := by
  intro file before after paths
  have lists : Lists [['r']] before [.directory [['r'], ['d']] [.file file]] := by
    constructor
    · refine .directory _ _ (List.forall_mem_singleton.mpr rfl) ?_ (nodup_singleton _)
      rw [forall_mem_singleton]
      exact .directory _ _ (List.forall_mem_singleton.mpr rfl) (List.forall_mem_singleton.mpr (.file _))
        (nodup_singleton _)
    · intro path
      change path ∈ [file] ↔ Below [['r']] path ∧ path ∈ [file]
      refine ⟨fun member => ⟨?_, member⟩, And.right⟩
      rw [List.mem_singleton.mp member]
      decide
  refine run_synced (by decide)
    (represents_fileSystem (by decide)) lists rfl [⟨.upsert (fileSystem after) paths, after⟩]
    ⟨⟨by decide, ?_, ?_⟩, ⟨?_, ?_, nofun⟩, trivial⟩
  · intro fs others same
    injection same with same
    rw [← same]
    exact represents_fileSystem (by decide)
  · intro path differs
    by_contra outside
    have apart : path ≠ file := fun same => outside (List.mem_singleton.mpr same)
    apply differs
    rw [HashMap.get?_insert, HashMap.get?_insert, if_neg apart, if_neg apart]
  · exact ⟨file, ['a', 'b'], by decide, 2, rfl, by decide, cons_ne_nil _ _⟩
  · intro fs others same dir _ _ path member _
    injection same with _ same
    rw [← same] at member
    rw [List.mem_singleton.mp member]
    exact ⟨['a'], by decide, 1, rfl, by decide, cons_ne_nil _ _⟩

/-- The only text of a directory is replaced by a file that is not text: the directory stays without children. -/
theorem emptied_directory_stays :
    let kept : Path := [['r'], ['b']]
    let lost : Path := [['r'], ['d'], ['a']]
    let added : Path := [['r'], ['d'], ['x']]
    let repository : Repository := HashMap.empty.insert kept ⟨1, some ['b']⟩
    let before := repository.insert lost ⟨1, some ['a']⟩
    let after := repository.insert added ⟨1, none⟩
    let entries : List Entry := [.file kept, .directory [['r'], ['d']] [.file lost]]
    let change : Change Unit := ⟨.upsert (fileSystem after) ⟨[lost, added], by decide⟩, after⟩
    Function.Injective encodingEnv.fromHashes ∧ Function.Injective encodingEnv.fromBytes ∧ PrefixFree before ∧
      Represents (fileSystem before) before ∧ Lists [['r']] before entries ∧ Covers before change ∧
      ∃ tree metadata, MerkleTree.tryNew encodingEnv (fileSystem before) (.directory [['r']] entries) = .ok (tree, metadata) ∧
        Synced encodingEnv [['r']] before tree ∧ ¬Synced encodingEnv [['r']] after (treeAfter encodingEnv tree [change]) := by
  intro kept lost added repository before after entries change
  have listing : ∀ file : Path, file = lost ∨ file = added → ∀ contents, Lists [['r']] (repository.insert file contents)
      [.file kept, .directory [['r'], ['d']] [.file file]] := by
    intro file isFile contents
    have fresh : (repository.remove file).entries = repository.entries := by
      rcases isFile with rfl | rfl <;> rfl
    constructor
    · have distinct : [(false, kept), (true, [['r'], ['d']])].Nodup := by decide
      refine .directory _ _ ?_ ?_ distinct
      · rw [forall_mem_cons, forall_mem_singleton]
        exact ⟨rfl, rfl⟩
      · rw [forall_mem_cons, forall_mem_singleton]
        refine ⟨.file _, .directory _ _ (List.forall_mem_singleton.mpr ?_) (List.forall_mem_singleton.mpr (.file _))
          (nodup_singleton _)⟩
        rcases isFile with rfl | rfl <;> rfl
    · intro path
      have keys : (repository.insert file contents).keys = [kept, file] := by
        unfold HashMap.keys HashMap.insert
        dsimp only
        rw [fresh]
        rfl
      rw [keys]
      change path ∈ [kept, file] ↔ Below [['r']] path ∧ path ∈ [kept, file]
      refine ⟨fun member => ⟨?_, member⟩, And.right⟩
      rcases List.mem_cons.mp member with rfl | member
      · decide
      · rw [List.mem_singleton.mp member]
        rcases isFile with rfl | rfl <;> decide
  have represents : Represents (fileSystem before) before := represents_fileSystem (by decide)
  have afterRepresents : Represents (fileSystem after) after := represents_fileSystem (by decide)
  refine ⟨fromHashes_injective, fromBytes_injective, by decide, represents, listing lost (.inl rfl) _, ⟨by decide, ?_, ?_⟩,
    _, _, rfl, ?_, ?_⟩
  · intro fs others same
    injection same with same
    rw [← same]
    exact afterRepresents
  · intro path differs
    by_contra outside
    have apart : path ≠ lost ∧ path ≠ added := by
      constructor
      · exact fun same => outside (List.mem_cons.mpr (.inl same))
      · exact fun same => outside (List.mem_cons.mpr (.inr (List.mem_singleton.mpr same)))
    apply differs
    change (repository.insert lost _).get? path = (repository.insert added _).get? path
    rw [HashMap.get?_insert repository lost, HashMap.get?_insert repository added, if_neg apart.1, if_neg apart.2]
  · exact (newEntry_indexes represents (listing lost (.inl rfl) _) rfl).synced rfl
  · intro synced
    rcases synced.rebuilt (fileSystem after) _ afterRepresents (listing added (.inr rfl) _) with
      ⟨built, metadata, made, same⟩
    have differs : (match MerkleTree.tryNew encodingEnv (fileSystem after)
        (.directory [['r']] [.file kept, .directory [['r'], ['d']] [.file added]]) with
      | .ok (built, _) => built.root.hash
      | .error _ => 0) ≠ (match MerkleTree.tryNew encodingEnv (fileSystem before) (.directory [['r']] entries) with
      | .ok (tree, _) => (treeAfter encodingEnv tree [change]).root.hash
      | .error _ => 0) := by decide +kernel
    rw [made] at differs
    exact differs same

end Warp.Merkle
