import Warp.Chunker.ChunkCode
import Warp.Merkle.Mapping

namespace Warp.Merkle

open Chunker Str List

structure SerializedFragmentLocation where
  startLine : ℕ
  endLine : ℕ
  byteRange : ℕ × ℕ

namespace SerializedFragmentLocation

def ofLocation (location : FragmentLocation) : SerializedFragmentLocation :=
  ⟨location.startLine, location.endLine, location.byteRange⟩

def toLocation (self : SerializedFragmentLocation) : FragmentLocation := ⟨self.startLine, self.endLine, self.byteRange⟩

end SerializedFragmentLocation

inductive SerializedFilesystemInfo (T : Type) where
  | directory (absolutePath : Path)
  | file (absolutePath : Path) (fileSize : ℕ) (fsModifiedTime : T) (fileContentsHash : Str)
  | fragment (location : SerializedFragmentLocation)

inductive SerializedMerkleNode (H T : Type) where
  | mk (hash : H) (children : List (SerializedMerkleNode H T)) (fsInfo : SerializedFilesystemInfo T)

variable {H T : Type}

namespace SerializedMerkleNode

/-- A fragment has no path of its own. -/
def absolutePath : SerializedMerkleNode H T → Option Path
  | mk _ _ (.directory absolutePath) => some absolutePath
  | mk _ _ (.file absolutePath _ _ _) => some absolutePath
  | mk _ _ (.fragment _) => none

end SerializedMerkleNode

def NodeId.absolutePath : NodeId T → Path
  | .file absolutePath _ _ _ => absolutePath
  | .directory absolutePath => absolutePath
  | .fragment absolutePath _ => absolutePath

section Serialize

variable [DecidableEq H] (fragmentMetadataMapping : LeafToFragmentMetadata H)

def nodeToFilesystemInfo (hash : H) : NodeId T → Except String (SerializedFilesystemInfo T)
  | .directory absolutePath => .ok (.directory absolutePath)
  | .file absolutePath fileSize fsModifiedTime fileContentsHash =>
    .ok (.file absolutePath fileSize fsModifiedTime fileContentsHash)
  | .fragment absolutePath contentRange =>
    match fragmentMetadataMapping.mapping.get? hash with
    | none => .error "did not find hash in fragment metadata mapping"
    | some metadata =>
      match metadata.find? fun fragment =>
        fragment.absolutePath = absolutePath && fragment.location.byteRange = contentRange with
      | none => .error "did not find fragment metadata with matching path and content range"
      | some fragment => .ok (.fragment (.ofLocation fragment.location))

mutual

def serialize : MerkleNode H T → Except String (SerializedMerkleNode H T)
  | .mk hash children nodeId =>
    (nodeToFilesystemInfo fragmentMetadataMapping hash nodeId).bind fun fsInfo =>
      (serializeChildren children).map fun children => .mk hash children fsInfo

def serializeChildren : List (MerkleNode H T) → Except String (List (SerializedMerkleNode H T))
  | [] => .ok []
  | child :: children =>
    (serialize child).bind fun child => (serializeChildren children).map fun children => child :: children

end

def nodeIdFrom (hash : H) (parentPath : Path) : SerializedFilesystemInfo T → NodeId T × LeafToFragmentMetadataUpdates H
  | .directory absolutePath => (.directory absolutePath, .empty)
  | .file absolutePath fileSize fsModifiedTime fileContentsHash =>
    (.file absolutePath fileSize fsModifiedTime fileContentsHash, .empty)
  | .fragment location =>
    (.fragment parentPath location.byteRange,
      ⟨.empty, HashMap.empty.extend hash [⟨parentPath, location.toLocation⟩]⟩)

mutual

def fromSerialized (parentPath : Path) : SerializedMerkleNode H T → MerkleNode H T × LeafToFragmentMetadataUpdates H
  | .mk hash children fsInfo =>
    let nodeId := (nodeIdFrom hash parentPath fsInfo).1
    let built := fromSerializedChildren nodeId.absolutePath (nodeIdFrom hash parentPath fsInfo).2 children
    (.mk hash built.1 nodeId, built.2)

def fromSerializedChildren (absolutePath : Path) (updates : LeafToFragmentMetadataUpdates H) :
    List (SerializedMerkleNode H T) → List (MerkleNode H T) × LeafToFragmentMetadataUpdates H
  | [] => ([], updates)
  | child :: children =>
    let built := fromSerialized absolutePath child
    let rest := fromSerializedChildren absolutePath (updates.merge built.2) children
    (built.1 :: rest.1, rest.2)

end

namespace MerkleTree

def serialized (self : MerkleTree H T) : Except String (SerializedMerkleNode H T) :=
  serialize fragmentMetadataMapping self.root

omit fragmentMetadataMapping in
def fromSerializedTree (root : SerializedMerkleNode H T) : Except String (MerkleTree H T × LeafToFragmentMetadata H) :=
  match root.absolutePath with
  | none => .error "root node should never be a fragment"
  | some rootPath => .ok (⟨(fromSerialized rootPath root).1⟩, ⟨(fromSerialized rootPath root).2.toInsert⟩)

end MerkleTree

end Serialize

section RoundTrip

variable [LinearOrder H] {env : Env H} {metadata : LeafToFragmentMetadata H} {reads : List (Read H T)}

def Chunks (env : Env H) : Prop :=
  ∀ code path, (∀ fragment ∈ env.chunkCode code path, fragment.Valid code) ∧ (env.chunkCode code path).Pairwise Chunker.Apart

omit [LinearOrder H] in
theorem Chunks.eq_of_range (chunks : Chunks env) {path : Path} {content : Str} {first second : Fragment}
    (isFirst : first ∈ fragmentsOf env path content) (isSecond : second ∈ fragmentsOf env path content)
    (starts : first.startByteIndex = second.startByteIndex) (ends : first.endByteIndex = second.endByteIndex) :
    first = second := by
  obtain ⟨valid, apart⟩ := chunks content path
  obtain ⟨inFirst, someFirst⟩ := List.mem_filter.mp isFirst
  obtain ⟨inSecond, someSecond⟩ := List.mem_filter.mp isSecond
  have size := (valid first inFirst).size_eq
  have positive : first.size ≠ 0 := by
    unfold Fragment.size
    rw [Ne, Str.byteLen_eq_zero_iff]
    exact of_decide_eq_true someFirst
  have differ : ∀ a ∈ env.chunkCode content path, ∀ b ∈ env.chunkCode content path, a ≠ b → Chunker.Apart a b ∨ Chunker.Apart b a := by
    have symmetric : Std.Symm fun a b : Fragment => Chunker.Apart a b ∨ Chunker.Apart b a := ⟨fun _ _ => Or.symm⟩
    have either : (env.chunkCode content path).Pairwise fun a b => Chunker.Apart a b ∨ Chunker.Apart b a := apart.imp .inl
    exact fun a isA b isB => either.forall isA isB
  by_contra different
  have := differ first inFirst second inSecond different
  unfold Chunker.Apart at this
  omega

/-- The mapping has the locations of the files that were read, no two of which have one path. -/
structure Located (env : Env H) (metadata : LeafToFragmentMetadata H) (reads : List (Read H T)) : Prop where
  chunks : Chunks env
  areRead : ∀ read ∈ reads, Reads env read.1 read.2
  paths : (reads.map fun read => read.1.absolutePath).Nodup
  values : ∀ hash, (metadata.mapping.values hash).Perm (reads.flatMap (locations env hash))

def serializedFragment (env : Env H) (fragment : Fragment) : SerializedMerkleNode H T :=
  .mk (env.fromBytes fragment.content) [] (.fragment
    ⟨fragment.startLine, fragment.endLine, fragment.startByteIndex, fragment.endByteIndex⟩)

namespace Located

theorem serialize_fragment (located : Located env metadata reads) {read : Read H T} (isRead : read ∈ reads)
    {fragment : Fragment} (isFragment : fragment ∈ fragmentsOf env read.1.absolutePath read.2) :
    serialize metadata (fragmentNode env fragment : MerkleNode H T) = .ok (serializedFragment env fragment) := by
  have filePath : fragment.filePath = read.1.absolutePath :=
    env.chunkCode_filePath _ _ fragment (List.mem_filter.mp isFragment).1
  have member : FragmentMetadata.ofFragment fragment ∈ metadata.mapping.values (env.fromBytes fragment.content) := by
    apply (located.values _).mem_iff.mpr
    refine List.mem_flatMap.mpr ⟨read, isRead, List.mem_map_of_mem (List.mem_filter.mpr ⟨isFragment, ?_⟩)⟩
    exact decide_eq_true rfl
  have only : ∀ other ∈ metadata.mapping.values (env.fromBytes fragment.content),
      other.absolutePath = fragment.filePath → other.location.byteRange = (fragment.startByteIndex, fragment.endByteIndex) →
      other = .ofFragment fragment := by
    intro other isOther samePath sameRange
    obtain ⟨read', isRead', inRead'⟩ := List.mem_flatMap.mp ((located.values _).mem_iff.mp isOther)
    have path := (of_mem_locations (located.areRead read' isRead') inRead').1
    obtain rfl : read' = read := inj_on_of_nodup_map located.paths isRead' isRead (by rw [← path, samePath, filePath])
    obtain ⟨fragment', isFragment', rfl⟩ := List.mem_map.mp inRead'
    have isFragment' := (List.mem_filter.mp isFragment').1
    injection sameRange with starts ends
    rw [located.chunks.eq_of_range isFragment' isFragment starts ends]
  unfold HashMap.values at member only
  cases found : metadata.mapping.get? (env.fromBytes fragment.content) with
  | none =>
    rw [found] at member
    cases member
  | some entry =>
    rw [found] at member only
    have located : entry.find? (fun other => other.absolutePath = fragment.filePath &&
        other.location.byteRange = (fragment.startByteIndex, fragment.endByteIndex)) = some (.ofFragment fragment) := by
      cases first : entry.find? fun other => other.absolutePath = fragment.filePath &&
          other.location.byteRange = (fragment.startByteIndex, fragment.endByteIndex) with
      | none =>
        have := List.find?_eq_none.mp first _ member
        simp [FragmentMetadata.ofFragment] at this
      | some other =>
        have holds := List.find?_some first
        rw [Bool.and_eq_true] at holds
        rw [only other (mem_of_find?_eq_some first) (of_decide_eq_true holds.1) (of_decide_eq_true holds.2)]
    unfold fragmentNode serialize nodeToFilesystemInfo
    simp only [found, located]
    rfl

theorem serialize_fragments (located : Located env metadata reads) {read : Read H T} (isRead : read ∈ reads)
    {fragments : List Fragment} (areFragments : ∀ fragment ∈ fragments, fragment ∈ fragmentsOf env read.1.absolutePath read.2) :
    serializeChildren metadata (fragments.map (fragmentNode env) : List (MerkleNode H T)) =
      .ok (fragments.map (serializedFragment env)) := by
  induction fragments with
  | nil => rfl
  | cons fragment fragments ih =>
    obtain ⟨isFragment, areFragments⟩ := List.forall_mem_cons.mp areFragments
    rw [map_cons, serializeChildren, located.serialize_fragment isRead isFragment, ih areFragments]
    rfl

end Located

theorem fromSerialized_fragment {path : Path} {fragment : Fragment} (filePath : fragment.filePath = path) :
    fromSerialized path (serializedFragment env fragment : SerializedMerkleNode H T) =
      (fragmentNode env fragment,
        ⟨.empty, HashMap.empty.extend (env.fromBytes fragment.content) [.ofFragment fragment]⟩) := by
  subst filePath
  rfl

theorem fromSerialized_fragments {path : Path} {fragments : List Fragment}
    (filePath : ∀ fragment ∈ fragments, fragment.filePath = path) (u : LeafToFragmentMetadataUpdates H) :
    ∃ v, fromSerializedChildren path u (fragments.map (serializedFragment env) : List (SerializedMerkleNode H T)) =
        (fragments.map (fragmentNode env), v) ∧
      v.toRemove = u.toRemove ∧ (u.toInsert.Inhabited → v.toInsert.Inhabited) ∧
      ∀ hash, v.toInsert.values hash =
        u.toInsert.values hash ++ (fragments.filter fun fragment => env.fromBytes fragment.content = hash).map .ofFragment := by
  induction fragments generalizing u with
  | nil =>
    refine ⟨u, rfl, rfl, id, ?_⟩
    intro hash
    exact (append_nil _).symm
  | cons fragment fragments ih =>
    obtain ⟨ofPath, filePath⟩ := List.forall_mem_cons.mp filePath
    let single : LeafToFragmentMetadataUpdates H :=
      ⟨.empty, HashMap.empty.extend (env.fromBytes fragment.content) [.ofFragment fragment]⟩
    have nothing : (HashMap.empty : HashMap H (List FragmentMetadata)).Inhabited := by
      intro key
      nofun
    obtain ⟨v, built, removed, inhabited, inserted⟩ := ih filePath (u.merge single)
    refine ⟨v, ?_, removed, ?_, ?_⟩
    · rw [map_cons, fromSerializedChildren, fromSerialized_fragment ofPath]
      simp only [built, single, map_cons]
    · intro before
      apply inhabited
      exact before.extendAll (nothing.extend (cons_ne_nil _ _) _)
    · intro hash
      have merged : (u.merge single).toInsert.values hash = u.toInsert.values hash ++ single.toInsert.values hash :=
        HashMap.values_extendAll _ _ _
      have values : single.toInsert.values hash =
          if hash = env.fromBytes fragment.content then [FragmentMetadata.ofFragment fragment] else [] := by
        rw [HashMap.values_extend]
        split <;> rfl
      rw [inserted, merged, values, append_assoc]
      by_cases same : env.fromBytes fragment.content = hash
      · rw [if_pos same.symm, filter_cons_of_pos (by simp [same])]
        rfl
      · rw [if_neg (Ne.symm same), filter_cons_of_neg (by simp [same])]
        rfl

/-- What a node gives back: itself, and the locations of the files under it. -/
structure Restores (env : Env H) (metadata : LeafToFragmentMetadata H) (reads : List (Read H T)) (node : MerkleNode H T)
    (serialized : SerializedMerkleNode H T) : Prop where
  serializes : serialize metadata node = .ok serialized
  restored : ∀ parentPath, ∃ updates made, fromSerialized parentPath serialized = (node, updates) ∧
    Adds env updates made ∧ made.map Prod.fst = node.files ∧ ∀ read ∈ made, read ∈ reads

theorem Located.restores_file (located : Located env metadata reads) {read : Read H T} (isRead : read ∈ reads) :
    ∃ serialized, Restores env metadata reads read.1 serialized := by
  have isReading := located.areRead read isRead
  rcases read with ⟨⟨hash, children, path | path | path⟩, content⟩
  · rename_i size time contents
    have sameChildren : children = (fragmentsOf env path content).map (fragmentNode env) := isReading.children
    have serialized : serializeChildren metadata children = .ok ((fragmentsOf env path content).map (serializedFragment env)) := by
      rw [sameChildren]
      exact located.serialize_fragments isRead fun _ member => member
    have ofPath : ∀ fragment ∈ fragmentsOf env path content, fragment.filePath = path :=
      fun fragment member => env.chunkCode_filePath _ _ fragment (List.mem_filter.mp member).1
    obtain ⟨updates, built, removed, inhabited, inserted⟩ := @fromSerialized_fragments H T _ env _ _ ofPath .empty
    rw [← sameChildren] at built
    refine ⟨.mk hash ((fragmentsOf env path content).map (serializedFragment env)) (.file path size time contents), ?_, ?_⟩
    · rw [serialize, nodeToFilesystemInfo, serialized]
      rfl
    · intro parentPath
      refine ⟨updates, [(.mk hash children (.file path size time contents), content)], ?_,
        ⟨List.forall_mem_singleton.mpr isReading, removed, ?_, ?_⟩, rfl, List.forall_mem_singleton.mpr isRead⟩
      · rw [fromSerialized]
        unfold nodeIdFrom NodeId.absolutePath
        simp only [built]
      · intro key
        rw [inserted, flatMap_singleton]
        exact .refl _
      · apply inhabited
        intro key
        nofun
  · obtain ⟨size, time, sameId⟩ := isReading.nodeId
    cases sameId
  · obtain ⟨size, time, sameId⟩ := isReading.nodeId
    cases sameId

theorem restores_children {children : List (MerkleNode H T)}
    (restores : ∀ child ∈ children, ∃ serialized, Restores env metadata reads child serialized) :
    ∃ serialized, serializeChildren metadata children = .ok serialized ∧ ∀ path u, ∃ v made,
      fromSerializedChildren path u serialized = (children, v) ∧ Recorded env u v [] made ∧
        v.toRemove = u.toRemove ∧ made.map Prod.fst = children.flatMap MerkleNode.files ∧ ∀ read ∈ made, read ∈ reads := by
  induction children with
  | nil => exact ⟨[], rfl, fun path u => ⟨u, [], rfl, Recorded.refl u, rfl, rfl, nofun⟩⟩
  | cons child children ih =>
    obtain ⟨⟨first, serializes, restored⟩, restores⟩ := List.forall_mem_cons.mp restores
    obtain ⟨rest, serializesRest, restoredRest⟩ := ih restores
    refine ⟨first :: rest, ?_, ?_⟩
    · rw [serializeChildren, serializes, serializesRest]
      rfl
    · intro path u
      obtain ⟨updates, made, built, adds, files, areRead⟩ := restored path
      obtain ⟨v, madeRest, builtRest, recorded, removed, filesRest, areReadRest⟩ := restoredRest path (u.merge updates)
      refine ⟨v, made ++ madeRest, ?_, (adds.recorded u).trans recorded, ?_, ?_, List.forall_mem_append.mpr ⟨areRead, areReadRest⟩⟩
      · rw [fromSerializedChildren]
        simp only [built, builtRest]
      · exact removed.trans (merge_toRemove_of_empty adds.removed)
      · rw [map_append, files, filesRest, flatMap_cons]

theorem Located.restores (located : Located env metadata reads) {node : MerkleNode H T} (shaped : node.Shaped)
    (isRead : ∀ file ∈ node.files, ∃ content, (file, content) ∈ reads) :
    ∃ serialized, Restores env metadata reads node serialized := by
  induction shaped with
  | file hash children path size time contents =>
    obtain ⟨content, member⟩ := isRead _ (mem_singleton_self _)
    exact located.restores_file member
  | directory hash children path _ shaped _ ih =>
    have inside : ∀ child ∈ children, ∃ serialized, Restores env metadata reads child serialized := by
      intro child isChild
      apply ih child isChild
      intro file isFile
      apply isRead
      rw [MerkleNode.files_directory]
      exact List.mem_flatMap.mpr ⟨child, isChild, isFile⟩
    obtain ⟨serialized, serializes, restored⟩ := restores_children inside
    refine ⟨.mk hash serialized (.directory path), ?_, ?_⟩
    · rw [serialize, nodeToFilesystemInfo, serializes]
      rfl
    · intro parentPath
      obtain ⟨updates, made, built, recorded, removed, files, areRead⟩ := restored path .empty
      refine ⟨updates, made, ?_, recorded.adds removed, ?_, areRead⟩
      · rw [fromSerialized]
        unfold nodeIdFrom NodeId.absolutePath
        simp only [built]
      · rw [files, MerkleNode.files_directory]

end RoundTrip

section Run

variable [LinearOrder H] {env : Env H} {tree : MerkleTree H T} {metadata : LeafToFragmentMetadata H}

/-- A snapshot is rebuilt to the tree, and to the mapping but for the order of the locations of a hash. -/
def RoundTrips (tree : MerkleTree H T) (metadata : LeafToFragmentMetadata H) : Prop :=
  ∃ snapshot rebuilt, tree.serialized metadata = .ok snapshot ∧
    MerkleTree.fromSerializedTree snapshot = .ok (tree, rebuilt) ∧
    ∀ hash, (rebuilt.mapping.get? hash).isSome = (metadata.mapping.get? hash).isSome ∧
      (rebuilt.mapping.values hash).Perm (metadata.mapping.values hash)

theorem isSome_iff_of_inhabited {mapping : HashMap H (List FragmentMetadata)} (inhabited : mapping.Inhabited) (hash : H) :
    (mapping.get? hash).isSome = true ↔ mapping.values hash ≠ [] := by
  unfold HashMap.values
  cases found : mapping.get? hash with
  | none => simp
  | some entry =>
    have := inhabited hash
    rw [found] at this
    simpa using this

omit [LinearOrder H] in
theorem absolutePath_of_serialize [DecidableEq H] {hash : H} {children : List (MerkleNode H T)} {path : Path}
    {serialized : SerializedMerkleNode H T}
    (serializes : serialize metadata (.mk hash children (.directory path)) = .ok serialized) :
    serialized.absolutePath = some path := by
  rw [serialize, nodeToFilesystemInfo] at serializes
  cases inner : serializeChildren metadata children with
  | error error =>
    rw [inner] at serializes
    cases serializes
  | ok children =>
    rw [inner] at serializes
    cases serializes
    rfl

omit [LinearOrder H] in
theorem perm_of_files {made reads : List (Read H T)} {files : List (MerkleNode H T)} (distinct : files.Nodup)
    (sameFiles : made.map Prod.fst = files) (readFiles : (reads.map Prod.fst).Perm files) (inReads : ∀ read ∈ made, read ∈ reads) :
    made.Perm reads := by
  rw [← sameFiles] at distinct
  apply (subperm_of_subset distinct.of_map inReads).perm_of_length_le
  have lengths := readFiles.length_eq
  rw [← sameFiles, length_map, length_map] at lengths
  exact Nat.le_of_eq lengths

theorem Holds.roundTrips (chunks : Chunks env) (rooted : Rooted tree) (holds : Holds env tree.root.files metadata) :
    RoundTrips tree metadata := by
  obtain ⟨reads, files, areRead, values⟩ := holds.values
  have distinct : (reads.map fun read => read.1.absolutePath).Nodup := by
    have := (files.map MerkleNode.absolutePath).nodup_iff.mpr rooted.shaped.nodup_paths
    rwa [List.map_map] at this
  have located : Located env metadata reads := ⟨chunks, areRead, distinct, values⟩
  have isRead : ∀ file ∈ tree.root.files, ∃ content, (file, content) ∈ reads := by
    intro file isFile
    obtain ⟨read, member, rfl⟩ := List.mem_map.mp (files.mem_iff.mpr isFile)
    exact ⟨read.2, member⟩
  obtain ⟨snapshot, serializes, restored⟩ := located.restores rooted.shaped isRead
  rcases tree with ⟨hash, children, path | path | path⟩
  · cases rooted.isDirectory
  · have rootPath := absolutePath_of_serialize serializes
    obtain ⟨updates, made, built, adds, sameFiles, inReads⟩ := restored path
    have same := perm_of_files rooted.shaped.nodup_paths.of_map sameFiles files inReads
    have perm : ∀ key, (updates.toInsert.values key).Perm (metadata.mapping.values key) := fun key =>
      (adds.inserted key).trans ((same.flatMap_right _).trans (values key).symm)
    refine ⟨snapshot, ⟨updates.toInsert⟩, serializes, ?_, fun key => ⟨?_, perm key⟩⟩
    · unfold MerkleTree.fromSerializedTree
      simp only [rootPath, built]
    · rw [Bool.eq_iff_iff, isSome_iff_of_inhabited adds.inhabited, isSome_iff_of_inhabited holds.inhabited, Ne, Ne,
        ← perm_nil, ← perm_nil, (perm key).congr_left]
  · cases rooted.isDirectory

variable {parse : Str → Path → Option Node} {lineSpans : Str → List Naive.LineSpan}

omit [LinearOrder H] in
theorem chunks_of_chunkFile (chunker : ∀ code path, chunkFile parse lineSpans code path = some (env.chunkCode code path))
    (parses : ∀ code path root, parse code path = some root → root.WellFormed code)
    (isSpans : ∀ code, Naive.LineSpans 0 code (lineSpans code)) : Chunks env := by
  intro code path
  obtain ⟨fragments, ran, slices⟩ := chunkFile_spec (parses code path) (isSpans code)
  rw [chunker, Option.some_inj] at ran
  rw [ran]
  exact slices

/-- A snapshot round trips after every run. -/
theorem run_roundTrips (chunker : ∀ code path, chunkFile parse lineSpans code path = some (env.chunkCode code path))
    (parses : ∀ code path root, parse code path = some root → root.WellFormed code)
    (isSpans : ∀ code, Naive.LineSpans 0 code (lineSpans code)) {fs : FileSystem T} {path : Path} {entries : List Entry}
    (shaped : (Entry.directory path entries).Shaped)
    (built : MerkleTree.tryNew env fs (.directory path entries) = .ok (tree, metadata)) (updates : List (Update T)) :
    ∃ finalTree finalMetadata, run env tree metadata updates = .ok (finalTree, finalMetadata) ∧
      RoundTrips finalTree finalMetadata := by
  have chunks := chunks_of_chunkFile chunker parses isSpans
  obtain ⟨rooted, holds⟩ := Holds.tryNew shaped built
  clear built
  induction updates generalizing tree metadata with
  | nil => exact ⟨tree, metadata, rfl, holds.roundTrips chunks rooted⟩
  | cons update updates ih =>
    obtain ⟨result, updated, nextRooted, nextHolds⟩ := holds.update rooted update
    obtain ⟨finalTree, finalMetadata, ran, roundTrips⟩ := ih nextRooted nextHolds
    refine ⟨finalTree, finalMetadata, ?_, roundTrips⟩
    rw [run, updated]
    exact ran

end Run

def parseWhole (code : Str) (_ : Path) : Option Node :=
  some (.node 0 (byteLen code) 0 0 [.node 0 (byteLen code) 0 0 []])

theorem parseWhole_wellFormed (code : Str) (path : Path) (root : Node) (parsed : parseWhole code path = some root) :
    root.WellFormed code := by
  cases parsed
  have atStart : IsBoundary code 0 := ⟨[], code, rfl, rfl⟩
  have atEnd : IsBoundary code (byteLen code) := ⟨code, [], (append_nil code).symm, rfl⟩
  unfold Node.WellFormed childrenWellFormed Node.WellFormed childrenWellFormed
  exact ⟨atStart, atEnd, Nat.le_refl _, ⟨atStart, atEnd, Nat.zero_le _⟩, Nat.le_refl _⟩

def wholeEnv : Env ℕ where
  fromHashes := List.sum
  fromBytes := List.length
  contentsHash := id
  chunkCode code path := (chunkFile parseWhole (lineSpansFrom 0 []) code path).getD []
  chunkCode_filePath code path fragment member := by
    cases found : chunkFile parseWhole (lineSpansFrom 0 []) code path with
    | none =>
      rw [found] at member
      cases member
    | some fragments =>
      rw [found] at member
      exact chunkFile_filePath found fragment member
  threadpool := true

theorem wholeEnv_chunkCode (code : Str) (path : Path) :
    chunkFile parseWhole (lineSpansFrom 0 []) code path = some (wholeEnv.chunkCode code path) := by
  obtain ⟨fragments, ran, -⟩ := chunkFile_spec (parseWhole_wellFormed code path) (lineSpansFrom_spec 0 not_mem_nil)
  have chunked : wholeEnv.chunkCode code path = (chunkFile parseWhole (lineSpansFrom 0 []) code path).getD [] := rfl
  rw [chunked, ran]
  rfl

theorem run_roundTrips_edited :
    let fs : FileSystem Unit := ⟨fun _ => false, fun _ => true, fun _ => some (1, some ()), fun _ => some ['x']⟩
    let paths : HashSet Path := ⟨[[['r'], ['a']]], nodup_singleton _⟩
    match MerkleTree.tryNew wholeEnv fs (.directory [['r']] [.file [['r'], ['a']]]) with
    | .ok (tree, metadata) => ∃ finalTree finalMetadata,
      run wholeEnv tree metadata [.upsert fs paths, .remove paths] = .ok (finalTree, finalMetadata) ∧
        RoundTrips finalTree finalMetadata
    | .error _ => False := by
  intro fs paths
  refine @run_roundTrips _ _ _ wholeEnv _ _ _ _ wholeEnv_chunkCode parseWhole_wellFormed
    (fun code => lineSpansFrom_spec 0 not_mem_nil) fs _ [.file [['r'], ['a']]] ?_ rfl _
  refine .directory _ _ ?_ ?_ (nodup_singleton _)
  · exact List.forall_mem_singleton.mpr rfl
  · exact List.forall_mem_singleton.mpr (.file _)

/-- A file that is read again comes after the other one with its text in the mapping, but not in the tree. -/
theorem rebuilt_order_differs :
    let fs : FileSystem Unit := ⟨fun _ => false, fun _ => true, fun _ => some (1, some ()), fun _ => some ['x']⟩
    let paths : HashSet Path := ⟨[[['r'], ['a']]], nodup_singleton _⟩
    let files : List Entry := [.file [['r'], ['a']], .file [['r'], ['b']]]
    ((MerkleTree.tryNew wholeEnv fs (.directory [['r']] files)).toOption.bind fun built =>
      (run wholeEnv built.1 built.2 [.upsert fs paths]).toOption.bind fun updated =>
        (updated.1.serialized updated.2).toOption.bind fun snapshot =>
          (MerkleTree.fromSerializedTree snapshot).toOption.map fun rebuilt =>
            (updated.2.mapping.get? 1, rebuilt.2.mapping.get? 1)) =
      some (some [⟨[['r'], ['b']], 0, 0, 0, 1⟩, ⟨[['r'], ['a']], 0, 0, 0, 1⟩],
        some [⟨[['r'], ['a']], 0, 0, 0, 1⟩, ⟨[['r'], ['b']], 0, 0, 0, 1⟩]) := by
  decide +kernel

end Warp.Merkle
