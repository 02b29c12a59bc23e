import Warp.Merkle.Mask

namespace Warp.Merkle

open List

variable {H T : Type}

section Populated

variable {node child : MerkleNode H T} {excused : Path → Prop}

theorem Populated.mono {excused' : Path → Prop} (populated : Populated excused node)
    (weaker : ∀ path, excused path → excused' path) : Populated excused' node := by
  induction populated with
  | file node isFile => exact .file node isFile
  | directory hash children path some populated ih => exact .directory hash children path (some.imp_right (weaker path)) ih

theorem exists_mem_files (populated : Populated (fun _ => False) node) : ∃ file, file ∈ node.files := by
  induction populated with
  | file node isFile =>
    rcases node with ⟨hash, children, path | path | path⟩
    · exact ⟨_, mem_singleton_self _⟩
    · cases isFile
    · cases isFile
  | directory hash children path some populated ih =>
    rcases exists_mem_of_ne_nil _ (some.resolve_right id) with ⟨child, isChild⟩
    rcases ih child isChild with ⟨file, inChild⟩
    rw [MerkleNode.files_directory]
    exact ⟨file, List.mem_flatMap.mpr ⟨child, isChild, inChild⟩⟩

/-- No directory is empty, and no file has the path of a directory. -/
structure Clear (node : MerkleNode H T) : Prop where
  shaped : node.Shaped
  populated : Populated (fun _ => False) node
  prefixFree : ∀ file ∈ node.files, ∀ other ∈ node.files, file.absolutePath <+: other.absolutePath →
    file.absolutePath = other.absolutePath

variable {hash : H} {children : List (MerkleNode H T)} {path : Path}

theorem Clear.of_mem (clear : Clear (.mk hash children (.directory path))) (isChild : child ∈ children) : Clear child := by
  have files : ∀ file ∈ child.files, file ∈ (MerkleNode.mk hash children (.directory path)).files := by
    intro file member
    rw [MerkleNode.files_directory]
    exact List.mem_flatMap.mpr ⟨child, isChild, member⟩
  rcases clear with ⟨shaped, populated, prefixFree⟩
  refine ⟨?_, ?_, fun file member other isOther => prefixFree file (files file member) other (files other isOther)⟩
  · cases shaped with
    | directory _ _ _ located shaped distinct => exact shaped child isChild
  · cases populated with
    | file _ isFile => cases isFile
    | directory _ _ _ some populated => exact populated child isChild

theorem below_of_mem_files {file : MerkleNode H T} (shaped : (MerkleNode.mk hash children (.directory path)).Shaped)
    (member : file ∈ (MerkleNode.mk hash children (.directory path)).files) : Below path file.absolutePath := by
  cases shaped with
  | directory _ _ _ located shaped distinct =>
    rw [MerkleNode.files_directory, mem_flatMap] at member
    rcases member with ⟨child, isChild, inChild⟩
    have takes := (shaped child isChild).takes_of_mem_files inChild
    rcases MerkleNode.Shaped.takes_parent (located child isChild) takes with ⟨isPrefix, shorter, -⟩
    refine ⟨isPrefix, ?_⟩
    intro same
    rw [same] at shorter
    exact Nat.lt_irrefl _ shorter

def Separate (children : List (MerkleNode H T)) : Prop :=
  ∀ child ∈ children, ∀ file ∈ children.flatMap MerkleNode.files, child.Takes file.absolutePath → file ∈ child.files

theorem Clear.separate (clear : Clear (.mk hash children (.directory path))) : Separate children := by
  intro child isChild file member takes
  rcases List.mem_flatMap.mp member with ⟨other, isOther, inOther⟩
  have childClear := clear.of_mem isChild
  have otherClear := clear.of_mem isOther
  have prefixFree := clear.prefixFree
  rw [MerkleNode.files_directory] at prefixFree
  cases clear.shaped with
  | directory _ _ _ located shaped distinct =>
    have otherTakes := otherClear.shaped.takes_of_mem_files inOther
    have samePath := MerkleNode.Shaped.siblings_take (located child isChild) (located other isOther) takes otherTakes
    have sameNode : child.isDirectory = other.isDirectory → file ∈ child.files := by
      intro kinds
      have same := inj_on_of_nodup_map distinct isChild isOther (Prod.ext kinds samePath)
      rw [same]
      exact inOther
    rcases childClear with ⟨childShaped, childPopulated, -⟩
    cases childShaped with
    | file =>
      cases otherClear.shaped with
      | file => exact sameNode rfl
      | directory _ _ otherPath =>
        have takes : _ = file.absolutePath := takes
        exact absurd (takes.symm.trans samePath) (below_of_mem_files otherClear.shaped inOther).2
    | directory childHash grandChildren childPath =>
      cases otherClear.shaped with
      | directory => exact sameNode rfl
      | file =>
        -- the directory has a file of its own, below the other file
        rcases exists_mem_files childPopulated with ⟨own, inChild⟩
        have below := below_of_mem_files (shaped _ isChild) inChild
        have filePath : _ = file.absolutePath := otherTakes
        have samePath : childPath = file.absolutePath := samePath.trans filePath
        rw [samePath] at below
        have same := prefixFree file member own (List.mem_flatMap.mpr ⟨_, isChild, inChild⟩) below.1
        exact absurd same.symm below.2

end Populated

section Lawful

variable [LinearOrder H] (env : Env H) (updater : Updater H T) (fresh ready : MerkleNode H T → Prop) (keeps : Prop)

structure Creates (path : Path) (remaining : HashSet Path) (u v : LeafToFragmentMetadataUpdates H)
    (nodes : List (MerkleNode H T)) : Prop where
  located : ∀ node ∈ nodes, node.absolutePath.parent = some path
  shaped : ∀ node ∈ nodes, node.Shaped
  distinct : (nodes.map MerkleNode.key).Nodup
  right : ∀ node ∈ nodes, Right env node
  populated : ∀ node ∈ nodes, Populated (fun _ => False) node
  files : ∀ file ∈ nodes.flatMap MerkleNode.files, fresh file ∧ file.absolutePath ∈ remaining
  recorded : ∃ made : List (Read H T), Recorded env u v [] made ∧
    (nodes.flatMap MerkleNode.files).Perm (made.map Prod.fst)
  complete : ∀ file, ready file → file.absolutePath ∈ remaining → Below path file.absolutePath →
    file ∈ nodes.flatMap MerkleNode.files

/-- What the walk relies on. Files that are `ready` are in the tree afterwards, those it reads are `fresh`. It `keeps`
directories without children. -/
structure Lawful : Prop where
  onFile : ∀ (node : MerkleNode H T) (u : LeafToFragmentMetadataUpdates H) (result : UpdateFileResult)
    (next : MerkleNode H T) (v : LeafToFragmentMetadataUpdates H), node.isFile = true →
    u.toRemove.get? node.absolutePath = none → updater.onFile node node.absolutePath u = (result, next, v) →
      (result = .deleted ∧ Recorded env u v [node] [] ∧ ∀ file, ready file → file.absolutePath ≠ node.absolutePath) ∨
      (result = .updated ∧ next.isFile = true ∧ next.absolutePath = node.absolutePath ∧ fresh next ∧
        (∃ content, Recorded env u v [node] [(next, content)]) ∧
        ∀ file, ready file → file.absolutePath = node.absolutePath → file = next)
  create : ∀ path remaining u, Creates env fresh ready path remaining u (updater.create path remaining u).2
    (updater.create path remaining u).1
  creates : ∀ remaining, updater.creates remaining = true → keeps ∧ ∃ path, path ∈ remaining
  idle : ∀ remaining, updater.creates remaining = false → ∀ file, ready file → file.absolutePath ∉ remaining

end Lawful

namespace Step

def files (step : Step H T) : List (MerkleNode H T) := if step.result = .deleted then [] else step.node.files

end Step

section Walked

variable [LinearOrder H] (env : Env H) (fresh ready : MerkleNode H T → Prop) (keeps : Prop)

/-- The files before and after an update differ by what it records. -/
structure Changed (paths : HashSet Path) (u v : LeafToFragmentMetadataUpdates H) (before after gone : List (MerkleNode H T))
    (made : List (Read H T)) : Prop where
  files : ∃ kept : List (MerkleNode H T), before.Perm (kept ++ gone) ∧ after.Perm (kept ++ made.map Prod.fst)
  recorded : Recorded env u v gone made
  gone : ∀ file ∈ gone, file.absolutePath ∈ paths
  made : ∀ read ∈ made, fresh read.1 ∧ read.1.absolutePath ∈ paths

/-- A directory with files may stay without a child for a path that is not the path of a file. -/
def Excused (keeps : Prop) (paths : HashSet Path) (node : MerkleNode H T) (dir : Path) : Prop :=
  keeps ∧ node.Takes dir ∧ (∃ file ∈ node.files, Below dir file.absolutePath) ∧
    ∃ path ∈ paths, dir <+: path ∧ ∀ file ∈ node.files, file.absolutePath ≠ path

structure Walked (paths : HashSet Path) (u : LeafToFragmentMetadataUpdates H) (node : MerkleNode H T) (step : Step H T) :
    Prop where
  left : ∀ path, path ∈ step.paths ↔ path ∈ paths ∧ ¬node.Takes path
  key : step.result ≠ .deleted → step.node.key = node.key
  changed : ∃ gone made, Changed env fresh paths u step.updates node.files step.files gone made
  shaped : step.result ≠ .deleted → step.node.Shaped
  right : step.result ≠ .deleted → Right env node → Right env step.node
  mask : step.mask.ValidFor step.node
  emptied : step.result = .deleted → node.isDirectory = true →
    step.node.nodeId = node.nodeId ∧ step.node.children = []
  updated : Clear node → ∀ file ∈ step.files, file.absolutePath ∈ paths → fresh file
  complete : Clear node → ∀ file, ready file → file.absolutePath ∈ paths → node.Takes file.absolutePath →
    (∀ other ∈ node.files, ¬Below file.absolutePath other.absolutePath) → file ∈ step.files
  populated : step.result ≠ .deleted → Clear node → Populated (Excused keeps paths node) step.node

structure ChildrenWalked (paths : HashSet Path) (u : LeafToFragmentMetadataUpdates H) (children : List (MerkleNode H T))
    (kept : List (MerkleNode H T × Option NodeMask)) (remaining : HashSet Path) (v : LeafToFragmentMetadataUpdates H) :
    Prop where
  remaining : ∀ path, path ∈ remaining ↔ path ∈ paths ∧ ∀ child ∈ children, ¬child.Takes path
  keys : (kept.map fun entry => entry.1.key).Sublist (children.map MerkleNode.key)
  changed : ∃ gone made, Changed env fresh paths u v (children.flatMap MerkleNode.files)
    (kept.flatMap fun entry => entry.1.files) gone made
  shaped : ∀ entry ∈ kept, entry.1.Shaped
  right : (∀ child ∈ children, Right env child) → ∀ entry ∈ kept, Right env entry.1
  mask : ∀ entry ∈ kept, ∀ mask, entry.2 = some mask → mask.ValidFor entry.1
  updated : (∀ child ∈ children, Clear child) → Separate children →
    ((children.flatMap MerkleNode.files).map MerkleNode.absolutePath).Nodup →
    ∀ entry ∈ kept, ∀ file ∈ entry.1.files, file.absolutePath ∈ paths → fresh file
  complete : (∀ child ∈ children, Clear child) → ∀ file, ready file → file.absolutePath ∈ paths →
    (∃ child ∈ children, child.Takes file.absolutePath) →
    (∀ other ∈ children.flatMap MerkleNode.files, ¬Below file.absolutePath other.absolutePath) →
    ∃ entry ∈ kept, file ∈ entry.1.files
  populated : (∀ child ∈ children, Clear child) →
    ∀ entry ∈ kept, ∃ child ∈ children, Populated (Excused keeps paths child) entry.1

variable {env fresh ready keeps} {paths remaining : HashSet Path} {u v w : LeafToFragmentMetadataUpdates H}
  {node : MerkleNode H T} {before after gone before' after' gone' : List (MerkleNode H T)} {made made' : List (Read H T)}

theorem append_append_perm {α : Type} (a b c d : List α) : ((a ++ b) ++ (c ++ d)).Perm ((a ++ c) ++ (b ++ d)) := by
  rw [append_assoc, append_assoc]
  apply List.Perm.append_left
  rw [← append_assoc, ← append_assoc]
  exact List.perm_append_comm.append_right d

theorem Changed.refl (paths : HashSet Path) (u : LeafToFragmentMetadataUpdates H) (files : List (MerkleNode H T)) :
    Changed env fresh paths u u files files [] [] := by
  refine ⟨⟨files, ?_, ?_⟩, Recorded.refl u, nofun, nofun⟩
  · rw [append_nil]
  · rw [map_nil, append_nil]

theorem Changed.mono (changed : Changed env fresh remaining u v before after gone made)
    (subset : ∀ path ∈ remaining, path ∈ paths) : Changed env fresh paths u v before after gone made := by
  refine ⟨changed.files, changed.recorded, ?_, ?_⟩
  · exact fun file member => subset _ (changed.gone file member)
  · exact fun read member => ⟨(changed.made read member).1, subset _ (changed.made read member).2⟩

theorem Changed.append (first : Changed env fresh paths u v before after gone made)
    (second : Changed env fresh paths v w before' after' gone' made') :
    Changed env fresh paths u w (before ++ before') (after ++ after') (gone ++ gone') (made ++ made') := by
  rcases first.files with ⟨kept, beforeFiles, afterFiles⟩
  rcases second.files with ⟨kept', beforeFiles', afterFiles'⟩
  refine ⟨⟨kept ++ kept', ?_, ?_⟩, first.recorded.trans second.recorded, ?_, ?_⟩
  · exact (beforeFiles.append beforeFiles').trans (append_append_perm _ _ _ _)
  · rw [map_append]
    exact (afterFiles.append afterFiles').trans (append_append_perm _ _ _ _)
  · exact List.forall_mem_append.mpr ⟨first.gone, second.gone⟩
  · exact List.forall_mem_append.mpr ⟨first.made, second.made⟩

theorem Changed.old_or_fresh (changed : Changed env fresh paths u v before after gone made) {file : MerkleNode H T}
    (member : file ∈ after) : file ∈ before ∨ fresh file ∧ file.absolutePath ∈ paths := by
  rcases changed.files with ⟨kept, beforeFiles, afterFiles⟩
  rcases List.mem_append.mp (afterFiles.mem_iff.mp member) with old | new
  · exact .inl (beforeFiles.mem_iff.mpr (mem_append_left _ old))
  · rcases List.mem_map.mp new with ⟨read, isRead, rfl⟩
    exact .inr (changed.made read isRead)

theorem Changed.toRemove_eq_none (changed : Changed env fresh paths u v before after gone made) {path : Path}
    (missing : u.toRemove.get? path = none) (apart : ∀ file ∈ before, file.absolutePath ≠ path) :
    v.toRemove.get? path = none := by
  rcases changed.files with ⟨kept, beforeFiles, -⟩
  apply Option.eq_none_iff_forall_ne_some.mpr
  intro hashes found
  rcases (changed.recorded.removed path hashes).mp found with old | ⟨file, isGone, same, -⟩
  · rw [missing] at old
    cases old
  · exact apart file (beforeFiles.mem_iff.mpr (mem_append_right _ isGone)) same

theorem Walked.unchanged {mask : NodeMask} (start : mask.ValidFor node) (shaped : node.Shaped) (apart : ∀ path ∈ paths, ¬node.Takes path) :
    Walked env fresh ready keeps paths u node ⟨.noChange, node, mask, paths, u⟩ := by
  have files : Step.files ⟨.noChange, node, mask, paths, u⟩ = node.files := rfl
  constructor
  · intro path
    exact ⟨fun member => ⟨member, apart path member⟩, And.left⟩
  · exact fun _ => rfl
  · rw [files]
    exact ⟨[], [], Changed.refl paths u node.files⟩
  · exact fun _ => shaped
  · exact fun _ right => right
  · exact start
  · nofun
  · intro clear file member inPaths
    exact absurd (shaped.takes_of_mem_files member) (apart _ inPaths)
  · intro clear file isReady inPaths takes
    exact absurd takes (apart _ inPaths)
  · intro _ clear
    exact clear.populated.mono fun _ => False.elim

variable {updater : Updater H T}

theorem Walked.file (lawful : Lawful env updater fresh ready keeps) (isFile : node.isFile = true)
    (inPaths : node.absolutePath ∈ paths) (missing : u.toRemove.get? node.absolutePath = none) (i : ℕ) :
    Walked env fresh ready keeps paths u node
      ⟨(updater.onFile node node.absolutePath u).1, (updater.onFile node node.absolutePath u).2.1, .all i,
        paths.remove node.absolutePath, (updater.onFile node node.absolutePath u).2.2⟩ := by
  have takes : ∀ path, node.Takes path ↔ node.absolutePath = path := MerkleNode.takes_of_isFile isFile
  have left : ∀ path, path ∈ paths.remove node.absolutePath ↔ path ∈ paths ∧ ¬node.Takes path := by
    intro path
    rw [HashSet.mem_remove, takes, eq_comm]
  rcases visited : updater.onFile node node.absolutePath u with ⟨result, next, v⟩
  rcases lawful.onFile node u result next v isFile missing visited with
    ⟨rfl, recorded, noneReady⟩ | ⟨rfl, nextFile, samePath, isFresh, ⟨content, recorded⟩, isNext⟩
  · constructor
    · exact left
    · exact fun kept => absurd rfl kept
    · refine ⟨[node], [], ⟨[], ?_, List.Perm.nil⟩, recorded, ?_, nofun⟩
      · rw [MerkleNode.files_of_isFile isFile]
        exact List.Perm.refl _
      · exact List.forall_mem_singleton.mpr inPaths
    · exact fun kept => absurd rfl kept
    · exact fun kept => absurd rfl kept
    · exact .all i next
    · intro _ isDirectory
      have kind := congrArg Prod.fst (MerkleNode.key_of_isFile isFile)
      cases kind.symm.trans isDirectory
    · nofun
    · intro clear file isReady _ taken
      exact absurd ((takes _).mp taken).symm (noneReady file isReady)
    · exact fun kept => absurd rfl kept
  · have files : Step.files ⟨.updated, next, .all i, paths.remove node.absolutePath, v⟩ = [next] :=
      MerkleNode.files_of_isFile nextFile
    constructor
    · exact left
    · intro _
      rw [MerkleNode.key_of_isFile isFile, MerkleNode.key_of_isFile nextFile, samePath]
    · rw [files]
      refine ⟨[node], [(next, content)], ⟨[], ?_, List.Perm.refl _⟩, recorded, ?_, ?_⟩
      · rw [MerkleNode.files_of_isFile isFile]
        exact List.Perm.refl _
      · exact List.forall_mem_singleton.mpr inPaths
      · intro read member
        rw [List.mem_singleton.mp member, samePath]
        exact ⟨isFresh, inPaths⟩
    · exact fun _ => MerkleNode.shaped_of_isFile nextFile
    · exact fun _ _ => .file next content (recorded.reads _ mem_cons_self)
    · exact .all i next
    · nofun
    · rw [files]
      intro clear file member _
      rw [List.mem_singleton.mp member]
      exact isFresh
    · rw [files]
      intro clear file isReady _ taken _
      rw [isNext file isReady ((takes _).mp taken).symm]
      exact mem_cons_self
    · exact fun _ _ => .file next nextFile

end Walked

end Warp.Merkle
