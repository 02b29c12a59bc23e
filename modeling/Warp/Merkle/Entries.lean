import Warp.Merkle.New

namespace Warp.Merkle

open List

variable {H T : Type}

namespace Entry

def path : Entry → Path
  | file path => path
  | directory path _ => path

def isDirectory : Entry → Bool
  | file _ => false
  | directory _ _ => true

def key (self : Entry) : Bool × Path := (self.isDirectory, self.path)

mutual

def files : Entry → List Path
  | file path => [path]
  | directory _ entries => entriesFiles entries

def entriesFiles : List Entry → List Path
  | [] => []
  | entry :: entries => entry.files ++ entriesFiles entries

end

inductive Shaped : Entry → Prop
  | file (path : Path) : Shaped (file path)
  | directory (path : Path) (entries : List Entry) (located : ∀ entry ∈ entries, entry.path.parent = some path)
    (shaped : ∀ entry ∈ entries, Shaped entry) (distinct : (entries.map key).Nodup) : Shaped (directory path entries)

theorem induction {motive : Entry → Prop} (file : ∀ path, motive (file path))
    (directory : ∀ path entries, (∀ entry ∈ entries, motive entry) → motive (directory path entries)) (entry : Entry) :
    motive entry := by
  refine Entry.rec (motive_1 := motive) (motive_2 := fun entries => ∀ entry ∈ entries, motive entry)
    file directory ?_ ?_ entry
  · nofun
  · intro first entries firstHolds entriesHold
    exact List.forall_mem_cons.mpr ⟨firstHolds, entriesHold⟩

theorem files_directory (path : Path) (entries : List Entry) : (directory path entries).files = entries.flatMap files := by
  unfold files
  induction entries with
  | nil => rfl
  | cons entry entries ih =>
    unfold entriesFiles
    rw [ih, flatMap_cons]

end Entry

section Trees

variable [LinearOrder H]

inductive Right (env : Env H) : MerkleNode H T → Prop
  | file (node : MerkleNode H T) (content : Str) (reads : Reads env node content) : Right env node
  | directory (hash : H) (children : List (MerkleNode H T)) (path : Path) (right : ∀ child ∈ children, Right env child)
    (sorted : children.Pairwise hashOrder) (same : hash = env.fromHashes (children.map MerkleNode.hash)) :
    Right env (.mk hash children (.directory path))

inductive Populated (excused : Path → Prop) : MerkleNode H T → Prop
  | file (node : MerkleNode H T) (isFile : node.isFile = true) : Populated excused node
  | directory (hash : H) (children : List (MerkleNode H T)) (path : Path) (some : children ≠ [] ∨ excused path)
    (populated : ∀ child ∈ children, Populated excused child) : Populated excused (.mk hash children (.directory path))

instance : Std.Total (hashOrder : MerkleNode H T → MerkleNode H T → Prop) := ⟨fun _ _ => le_total _ _⟩

instance : IsTrans (MerkleNode H T) hashOrder := ⟨fun _ _ _ => le_trans⟩

variable (env : Env H) (fs : FileSystem T)

theorem newEntries_eq (entries : List Entry) : newEntries env fs entries = entries.map (newEntry env fs) := by
  induction entries with
  | nil => rfl
  | cons entry entries ih =>
    unfold newEntries
    rw [ih, map_cons]

theorem newEntry_directory (path : Path) (entries : List Entry) :
    newEntry env fs (.directory path entries) =
      if env.threadpool = false then .error .noThreadpool
      else if (collectOk .empty (entries.map (newEntry env fs))).1.isEmpty then .error .emptyNodeContent
      else
        let children := (collectOk .empty (entries.map (newEntry env fs))).1.insertionSort hashOrder
        .ok (⟨env.fromHashes (children.map MerkleNode.hash), children, .directory path⟩,
          (collectOk .empty (entries.map (newEntry env fs))).2) := by
  rw [newEntry, newEntries_eq]

structure Makes (entry : Entry) (node : MerkleNode H T) (v : LeafToFragmentMetadataUpdates H) (made : List (Read H T)) :
    Prop where
  adds : Adds env v made
  files : node.files.Perm (made.map Prod.fst)
  nonempty : made ≠ []
  key : node.key = entry.key
  shaped : entry.Shaped → node.Shaped
  right : Right env node
  populated : Populated (fun _ => False) node
  fresh : ∀ file ∈ node.files, file.absolutePath ∈ entry.files ∧ ∃ w, newFile env fs file.absolutePath = .ok (file, w)

variable {env fs} {entries : List Entry}

theorem collectOk_keys (making : ∀ entry ∈ entries, ∀ node v, newEntry env fs entry = .ok (node, v) →
      node.key = entry.key) (u : LeafToFragmentMetadataUpdates H) :
    ((collectOk u (entries.map (newEntry env fs))).1.map MerkleNode.key).Sublist (entries.map Entry.key) := by
  induction entries generalizing u with
  | nil => exact List.Sublist.refl _
  | cons entry entries ih =>
    rcases List.forall_mem_cons.mp making with ⟨first, rest⟩
    cases made : newEntry env fs entry with
    | error error =>
      rw [map_cons, made]
      exact (ih rest u).cons _
    | ok result =>
      rcases result with ⟨node, v⟩
      rw [map_cons, made, map_cons, ← first node v made]
      exact (ih rest (u.merge v)).cons_cons _

theorem mem_collected {u : LeafToFragmentMetadataUpdates H} {node : MerkleNode H T} :
    node ∈ (collectOk u (entries.map (newEntry env fs))).1 ↔
      ∃ entry ∈ entries, ∃ v, newEntry env fs entry = .ok (node, v) := by
  rw [mem_collectOk]
  simp only [List.mem_map]
  constructor
  · intro found
    rcases found with ⟨v, entry, member, made⟩
    exact ⟨entry, member, v, made⟩
  · intro found
    rcases found with ⟨entry, member, v, made⟩
    exact ⟨v, entry, member, made⟩

theorem collectOk_entries (making : ∀ entry ∈ entries, ∀ node v, newEntry env fs entry = .ok (node, v) →
      ∃ made, Makes env fs entry node v made) (u : LeafToFragmentMetadataUpdates H) :
    ∃ made : List (Read H T), Recorded env u (collectOk u (entries.map (newEntry env fs))).2 [] made ∧
      ((collectOk u (entries.map (newEntry env fs))).1.flatMap MerkleNode.files).Perm (made.map Prod.fst) ∧
      (collectOk u (entries.map (newEntry env fs))).2.toRemove = u.toRemove := by
  apply collectOk_spec
  intro node v member
  rcases List.mem_map.mp member with ⟨entry, isEntry, made⟩
  rcases making entry isEntry node v made with ⟨reads, makes⟩
  exact ⟨reads, makes.adds, makes.files⟩

theorem collected_shaped {path : Path} (making : ∀ entry ∈ entries, ∀ node v, newEntry env fs entry = .ok (node, v) →
      ∃ made, Makes env fs entry node v made) (located : ∀ entry ∈ entries, entry.path.parent = some path)
    (shaped : ∀ entry ∈ entries, entry.Shaped) (distinct : (entries.map Entry.key).Nodup)
    (u : LeafToFragmentMetadataUpdates H) :
    (∀ node ∈ (collectOk u (entries.map (newEntry env fs))).1, node.absolutePath.parent = some path ∧ node.Shaped) ∧
      ((collectOk u (entries.map (newEntry env fs))).1.map MerkleNode.key).Nodup := by
  constructor
  · intro node member
    rcases mem_collected.mp member with ⟨entry, isEntry, v, made⟩
    rcases making entry isEntry node v made with ⟨reads, makes⟩
    have samePath : node.absolutePath = entry.path := congrArg Prod.snd makes.key
    rw [samePath]
    exact ⟨located entry isEntry, makes.shaped (shaped entry isEntry)⟩
  · refine List.Nodup.sublist (collectOk_keys ?_ u) distinct
    intro entry isEntry node v made
    rcases making entry isEntry node v made with ⟨reads, makes⟩
    exact makes.key

theorem newEntry_spec (entry : Entry) : ∀ (node : MerkleNode H T) (v : LeafToFragmentMetadataUpdates H),
    newEntry env fs entry = .ok (node, v) → ∃ made, Makes env fs entry node v made := by
  induction entry using Entry.induction with
  | file path =>
    intro node v made
    have made : newFile env fs path = .ok (node, v) := made
    rcases newFile_spec made with ⟨content, read, samePath, isFile, reads, adds⟩
    have single := MerkleNode.files_of_isFile isFile
    refine ⟨[(node, content)], adds, ?_, cons_ne_nil _ _, ?_, ?_, .file node content reads, .file node isFile, ?_⟩
    · rw [single]
      exact List.Perm.refl _
    · rw [MerkleNode.key_of_isFile isFile, samePath]
      rfl
    · exact fun _ => MerkleNode.shaped_of_isFile isFile
    · rw [single]
      intro file member
      rw [List.mem_singleton.mp member, samePath]
      exact ⟨mem_singleton_self path, v, made⟩
  | directory path entries ih =>
    intro node v made
    rcases collectOk_entries ih .empty with ⟨reads, recorded, files, removed⟩
    rw [newEntry_directory] at made
    by_cases noThreadpool : env.threadpool = false
    · rw [if_pos noThreadpool] at made
      cases made
    · rw [if_neg noThreadpool] at made
      by_cases nothing : (collectOk .empty (entries.map (newEntry env fs))).1.isEmpty = true
      · rw [if_pos nothing] at made
        cases made
      · rw [if_neg nothing] at made
        injection made with same
        injection same with sameNode sameUpdates
        have sorted := perm_insertionSort hashOrder (collectOk .empty (entries.map (newEntry env fs))).1
        have some : (collectOk .empty (entries.map (newEntry env fs))).1 ≠ [] :=
          fun empty => nothing (List.isEmpty_iff.mpr empty)
        have memSorted := fun child => mem_insertionSort (x := child) hashOrder
          (l := (collectOk .empty (entries.map (newEntry env fs))).1)
        have children : ∀ child ∈ (collectOk .empty (entries.map (newEntry env fs))).1.insertionSort hashOrder,
            ∃ entry ∈ entries, ∃ w inner, Makes env fs entry child w inner := by
          intro child member
          rcases mem_collected.mp ((memSorted child).mp member) with ⟨entry, isEntry, w, childMade⟩
          rcases ih entry isEntry child w childMade with ⟨inner, makes⟩
          exact ⟨entry, isEntry, w, inner, makes⟩
        have someSorted : (collectOk .empty (entries.map (newEntry env fs))).1.insertionSort hashOrder ≠ [] := by
          intro empty
          rw [empty] at sorted
          exact some sorted.symm.eq_nil
        have allFiles : node.files.Perm (reads.map Prod.fst) := by
          rw [← sameNode, MerkleNode.files_directory]
          exact (sorted.flatMap_right _).trans files
        refine ⟨reads, ?_, allFiles, ?_, ?_, ?_, ?_, ?_, ?_⟩
        · rw [← sameUpdates]
          exact recorded.adds removed
        · intro empty
          rw [empty] at files
          have noFiles := files.eq_nil
          rcases exists_mem_of_ne_nil _ some with ⟨child, member⟩
          rcases mem_collected.mp member with ⟨entry, isEntry, w, childMade⟩
          rcases ih entry isEntry child w childMade with ⟨inner, makes⟩
          have childFiles := List.flatMap_eq_nil_iff.mp noFiles child member
          have innerEmpty := makes.files
          rw [childFiles] at innerEmpty
          exact makes.nonempty (List.map_eq_nil_iff.mp innerEmpty.symm.eq_nil)
        · rw [← sameNode]
          rfl
        · intro shaped
          rw [← sameNode]
          cases shaped with
          | directory _ _ located shaped distinct =>
            rcases collected_shaped ih located shaped distinct .empty with ⟨childShaped, childDistinct⟩
            refine .directory _ _ _ ?_ ?_ ?_
            · exact fun child member => (childShaped child ((memSorted child).mp member)).1
            · exact fun child member => (childShaped child ((memSorted child).mp member)).2
            · exact (sorted.map MerkleNode.key).nodup_iff.mpr childDistinct
        · rw [← sameNode]
          refine .directory _ _ _ ?_ (pairwise_insertionSort _ _) rfl
          intro child member
          rcases children child member with ⟨entry, isEntry, w, inner, makes⟩
          exact makes.right
        · rw [← sameNode]
          refine .directory _ _ _ (.inl someSorted) ?_
          intro child member
          rcases children child member with ⟨entry, isEntry, w, inner, makes⟩
          exact makes.populated
        · intro file member
          rw [← sameNode, MerkleNode.files_directory, mem_flatMap] at member
          rcases member with ⟨child, isChild, inChild⟩
          rcases children child isChild with ⟨entry, isEntry, w, inner, makes⟩
          rcases makes.fresh file inChild with ⟨inEntry, fileMade⟩
          refine ⟨?_, fileMade⟩
          rw [Entry.files_directory, mem_flatMap]
          exact ⟨entry, isEntry, inEntry⟩

theorem newEntry_complete (threadpool : env.threadpool = true) (entry : Entry) {path : Path} (listed : path ∈ entry.files)
    {file : MerkleNode H T} {w : LeafToFragmentMetadataUpdates H} (readable : newFile env fs path = .ok (file, w)) :
    ∃ node v, newEntry env fs entry = .ok (node, v) ∧ file ∈ node.files := by
  induction entry using Entry.induction with
  | file filePath =>
    unfold Entry.files at listed
    rw [mem_singleton] at listed
    subst listed
    rcases newFile_spec readable with ⟨content, read, samePath, isFile, reads, adds⟩
    refine ⟨file, w, readable, ?_⟩
    rw [MerkleNode.files_of_isFile isFile]
    exact mem_singleton_self _
  | directory dirPath entries ih =>
    rw [Entry.files_directory, mem_flatMap] at listed
    rcases listed with ⟨entry, isEntry, inEntry⟩
    rcases ih entry isEntry inEntry with ⟨child, v, made, inChild⟩
    have isChild : child ∈ (collectOk .empty (entries.map (newEntry env fs))).1 :=
      mem_collected.mpr ⟨entry, isEntry, v, made⟩
    rw [newEntry_directory, if_neg (by rw [threadpool]; exact Bool.true_eq_false_eq_False)]
    rw [if_neg fun empty => ne_nil_of_mem isChild (List.isEmpty_iff.mp empty)]
    refine ⟨_, _, rfl, ?_⟩
    rw [MerkleNode.files_directory, mem_flatMap]
    exact ⟨child, (mem_insertionSort hashOrder).mpr isChild, inChild⟩

end Trees

end Warp.Merkle
