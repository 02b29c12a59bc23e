import Warp.Merkle.Rebuild

namespace Warp.Merkle

variable {H T : Type}

structure Contents where
  size : ℕ
  text : Option Str
deriving DecidableEq

abbrev Repository := HashMap Path Contents

def PrefixFree (repository : Repository) : Prop :=
  ∀ path ∈ repository.keys, ∀ other ∈ repository.keys, path <+: other → path = other

instance (repository : Repository) : Decidable (PrefixFree repository) :=
  inferInstanceAs (Decidable (∀ path ∈ repository.keys, ∀ other ∈ repository.keys, path <+: other → path = other))

structure Represents (fs : FileSystem T) (repository : Repository) : Prop where
  file : ∀ path contents, repository.get? path = some contents → fs.isDir path = false ∧ fs.pathExists path = true ∧
    (∃ time, fs.metadata path = some (contents.size, some time)) ∧ fs.readToString path = contents.text
  missing : ∀ path, repository.get? path = none → fs.readToString path = none

structure Lists (root : Path) (repository : Repository) (entries : List Entry) : Prop where
  shaped : (Entry.directory root entries).Shaped
  files : ∀ path, path ∈ (Entry.directory root entries).files ↔ Below root path ∧ path ∈ repository.keys

def fileSystem (repository : Repository) : FileSystem Unit where
  isDir path := repository.keys.any fun other => Below path other
  pathExists path := repository.keys.any fun other => path.isPrefixOf other
  metadata path := (repository.get? path).map fun contents => (contents.size, some ())
  readToString path := (repository.get? path).bind Contents.text

theorem represents_fileSystem {repository : Repository} (prefixFree : PrefixFree repository) :
    Represents (fileSystem repository) repository := by
  constructor
  · intro path contents found
    have isKey : path ∈ repository.keys := by
      apply HashMap.get?_isSome_iff.mp
      rw [found]
      rfl
    unfold fileSystem
    dsimp only
    rw [found]
    refine ⟨?_, ?_, ⟨(), rfl⟩, rfl⟩
    · rw [List.any_eq_false]
      intro other isOther below
      have below : Below path other := of_decide_eq_true below
      exact below.2 (prefixFree path isKey other isOther below.1).symm
    · rw [List.any_eq_true]
      exact ⟨path, isKey, List.isPrefixOf_iff_prefix.mpr (List.prefix_refl path)⟩
  · intro path missing
    unfold fileSystem
    dsimp only
    rw [missing]
    rfl

section Indexed

variable [LinearOrder H] (env : Env H) (root : Path) (repository : Repository)

def IndexedAs (path : Path) (content : Str) : Prop :=
  Below root path ∧ ∃ size, repository.get? path = some ⟨size, some content⟩ ∧ size < maxFileSize ∧
    fragmentsOf env path content ≠ []

def Indexed (path : Path) : Prop := ∃ content, IndexedAs env root repository path content

/-- The tree has exactly the nodes that the repository asks for. -/
structure Indexes (node : MerkleNode H T) : Prop where
  key : node.key = (true, root)
  shaped : node.Shaped
  right : Right env node
  populated : Populated (fun _ => False) node
  sound : ∀ file ∈ node.files, ∃ content, IndexedAs env root repository file.absolutePath content ∧ Reads env file content
  complete : ∀ path content, IndexedAs env root repository path content →
    ∃ file ∈ node.files, file.absolutePath = path ∧ Reads env file content

variable {env root repository} {fs : FileSystem T} {node other : MerkleNode H T}

variable {content : Str} {path : Path} {v : LeafToFragmentMetadataUpdates H} {entries : List Entry}

omit [LinearOrder H] in
theorem IndexedAs.mem_keys (indexed : IndexedAs env root repository path content) :
    path ∈ repository.keys := by
  rcases indexed.2 with ⟨size, found, -⟩
  apply HashMap.get?_isSome_iff.mp
  rw [found]
  rfl

omit [LinearOrder H] in
theorem Reads.of_reads {content' : Str} (reads : Reads env node content) (shared : Reads env node content')
    (otherReads : Reads env other content') (same : node.absolutePath = other.absolutePath) :
    Reads env other content := by
  rcases reads.nodeId with ⟨size, time, nodeId⟩
  rcases shared.nodeId with ⟨sharedSize, sharedTime, sharedId⟩
  rcases otherReads.nodeId with ⟨otherSize, otherTime, otherId⟩
  have sameHash : env.contentsHash content = env.contentsHash content' := by
    rw [nodeId] at sharedId
    injection sharedId
  refine ⟨⟨otherSize, otherTime, ?_⟩, ?_, otherReads.nonempty, otherReads.hash⟩
  · rw [sameHash]
    exact otherId
  · rw [otherReads.children, ← same, ← shared.children, reads.children]

theorem Indexes.hasFile (indexes : Indexes env root repository node) (otherIndexes : Indexes env root repository other)
    (path : Path) (content : Str) (has : HasFile env node path content) : HasFile env other path content := by
  rcases has with ⟨file, isFile, rfl, reads⟩
  rcases indexes.sound file isFile with ⟨indexedContent, indexed, shared⟩
  rcases otherIndexes.complete _ _ indexed with ⟨found, isFound, samePath, foundReads⟩
  exact ⟨found, isFound, samePath, reads.of_reads shared foundReads samePath.symm⟩

theorem Indexes.hash_eq (indexes : Indexes env root repository node) (otherIndexes : Indexes env root repository other) :
    node.hash = other.hash :=
  hash_eq_of_same_files indexes.shaped indexes.right indexes.populated otherIndexes.shaped otherIndexes.right
    otherIndexes.populated (otherIndexes.key.trans indexes.key.symm) fun path content =>
      ⟨indexes.hasFile otherIndexes path content, otherIndexes.hasFile indexes path content⟩

theorem Indexes.clear (prefixFree : PrefixFree repository) (indexes : Indexes env root repository node) : Clear node := by
  refine ⟨indexes.shaped, indexes.populated, ?_⟩
  intro file isFile other isOther
  rcases indexes.sound file isFile with ⟨content, indexed, -⟩
  rcases indexes.sound other isOther with ⟨otherContent, otherIndexed, -⟩
  exact prefixFree _ indexed.mem_keys _ otherIndexed.mem_keys

theorem Represents.indexed_of_newFile (represents : Represents fs repository) (below : Below root path)
    (made : newFile env fs path = .ok (node, v)) :
    ∃ content, IndexedAs env root repository path content ∧ Reads env node content ∧ node.absolutePath = path := by
  rcases newFile_spec made with ⟨content, read, samePath, isFile, reads, adds⟩
  rcases newFile_small made with ⟨size, time, metadata, small⟩
  cases found : repository.get? path with
  | none =>
    rw [represents.missing path found] at read
    cases read
  | some contents =>
    rcases contents with ⟨contentsSize, text⟩
    rcases represents.file path _ found with ⟨-, -, ⟨contentsTime, contentsMetadata⟩, contentsRead⟩
    rw [metadata, Option.some_inj] at contentsMetadata
    have sameSize : size = contentsSize := congrArg Prod.fst contentsMetadata
    have sameText : some content = text := read.symm.trans contentsRead
    subst sameSize sameText
    refine ⟨content, ⟨below, size, found, small, ?_⟩, reads, samePath⟩
    intro empty
    apply reads.nonempty
    rw [reads.children, samePath, empty]
    rfl

theorem Represents.newFile_of_indexed (represents : Represents fs repository)
    (indexed : IndexedAs env root repository path content) :
    ∃ (file : MerkleNode H T) (v : LeafToFragmentMetadataUpdates H), newFile env fs path = .ok (file, v) ∧
      Reads env file content ∧ file.absolutePath = path := by
  rcases indexed with ⟨below, size, found, small, some⟩
  rcases represents.file path _ found with ⟨-, -, ⟨time, metadata⟩, read⟩
  rcases newFile_isOk metadata small read some with ⟨file, v, made⟩
  rcases newFile_spec made with ⟨readContent, isRead, samePath, isFile, reads, adds⟩
  rw [read, Option.some_inj] at isRead
  subst isRead
  exact ⟨file, v, made, reads, samePath⟩

theorem threadpool_of_newEntry (made : newEntry env fs (.directory path entries) = .ok (node, v)) :
    env.threadpool = true := by
  cases found : env.threadpool with
  | true => rfl
  | false =>
    rw [newEntry_directory, if_pos found] at made
    cases made

theorem newEntry_indexes (represents : Represents fs repository) (lists : Lists root repository entries)
    (made : newEntry env fs (.directory root entries) = .ok (node, v)) : Indexes env root repository node := by
  have threadpool := threadpool_of_newEntry made
  rcases newEntry_spec _ node v made with ⟨reads, makes⟩
  refine ⟨makes.key, makes.shaped lists.shaped, makes.right, makes.populated, ?_, ?_⟩
  · intro file isFile
    rcases makes.fresh file isFile with ⟨listed, w, fileMade⟩
    rcases represents.indexed_of_newFile ((lists.files _).mp listed).1 fileMade with ⟨content, indexed, fileReads, -⟩
    exact ⟨content, indexed, fileReads⟩
  · intro path content indexed
    rcases represents.newFile_of_indexed indexed with ⟨file, w, fileMade, fileReads, samePath⟩
    have listed := (lists.files path).mpr ⟨indexed.1, indexed.mem_keys⟩
    rcases newEntry_complete threadpool _ listed fileMade with ⟨built, u, builtMade, inBuilt⟩
    rw [made] at builtMade
    injection builtMade with both
    injection both with sameNode
    subst sameNode
    exact ⟨file, inBuilt, samePath, fileReads⟩

theorem newEntry_isOk (threadpool : env.threadpool = true) (represents : Represents fs repository)
    (lists : Lists root repository entries) (indexed : Indexed env root repository path) :
    ∃ (node : MerkleNode H T) (v : LeafToFragmentMetadataUpdates H),
      newEntry env fs (.directory root entries) = .ok (node, v) := by
  rcases indexed with ⟨content, indexed⟩
  rcases represents.newFile_of_indexed indexed with ⟨file, w, fileMade, -, -⟩
  have listed := (lists.files path).mpr ⟨indexed.1, indexed.mem_keys⟩
  rcases newEntry_complete threadpool _ listed fileMade with ⟨node, v, made, -⟩
  exact ⟨node, v, made⟩

end Indexed

end Warp.Merkle
