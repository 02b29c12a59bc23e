import Warp.Merkle.Tree

namespace Warp.Merkle

open List

variable {H T : Type}

namespace MerkleNode

def isFile (self : MerkleNode H T) : Bool :=
  match self.nodeId with
  | .file _ _ _ _ => true
  | _ => false

def isDirectory (self : MerkleNode H T) : Bool :=
  match self.nodeId with
  | .directory _ => true
  | _ => false

def key (self : MerkleNode H T) : Bool × Path := (self.isDirectory, self.absolutePath)

mutual

def files : MerkleNode H T → List (MerkleNode H T)
  | .mk _ children (.directory _) => childrenFiles children
  | .mk hash children (.file path size time contents) => [.mk hash children (.file path size time contents)]
  | .mk _ _ (.fragment _ _) => []

def childrenFiles : List (MerkleNode H T) → List (MerkleNode H T)
  | [] => []
  | child :: children => child.files ++ childrenFiles children

end

theorem childrenFiles_eq (children : List (MerkleNode H T)) : childrenFiles children = children.flatMap files := by
  induction children with
  | nil => rfl
  | cons child children ih =>
    unfold childrenFiles
    rw [ih, flatMap_cons]

theorem files_directory (hash : H) (children : List (MerkleNode H T)) (path : Path) :
    (mk hash children (.directory path) : MerkleNode H T).files = children.flatMap files := by
  unfold files
  exact childrenFiles_eq children

def Takes (self : MerkleNode H T) (path : Path) : Prop :=
  match self.nodeId with
  | .directory absolutePath => absolutePath <+: path
  | .file absolutePath _ _ _ => absolutePath = path
  | .fragment _ _ => False

/-- Directories hold files and directories of their own, each once. -/
inductive Shaped : MerkleNode H T → Prop
  | file (hash : H) (children : List (MerkleNode H T)) (path : Path) (size : ℕ) (time : T) (contents : Str) :
    Shaped (.mk hash children (.file path size time contents))
  | directory (hash : H) (children : List (MerkleNode H T)) (path : Path)
    (located : ∀ child ∈ children, child.absolutePath.parent = some path) (shaped : ∀ child ∈ children, Shaped child)
    (distinct : (children.map key).Nodup) : Shaped (.mk hash children (.directory path))

theorem takes_of_isFile {file : MerkleNode H T} (isFile : file.isFile = true) (path : Path) :
    file.Takes path ↔ file.absolutePath = path := by
  rcases file with ⟨hash, children, filePath | filePath | filePath⟩
  · rfl
  · cases isFile
  · cases isFile

variable {node : MerkleNode H T}

theorem files_of_isFile (isFile : node.isFile = true) : node.files = [node] := by
  rcases node with ⟨hash, children, path | path | path⟩
  · rfl
  · cases isFile
  · cases isFile

theorem shaped_of_isFile (isFile : node.isFile = true) : node.Shaped := by
  rcases node with ⟨hash, children, path | path | path⟩
  · exact .file _ _ _ _ _ _
  · cases isFile
  · cases isFile

theorem key_of_isFile (isFile : node.isFile = true) : node.key = (false, node.absolutePath) := by
  rcases node with ⟨hash, children, path | path | path⟩
  · rfl
  · cases isFile
  · cases isFile

namespace Shaped

variable {node file : MerkleNode H T} {path : Path}

variable {base : Path}

theorem takes_parent {child : MerkleNode H T} (located : child.absolutePath.parent = some base)
    (takes : child.Takes path) : base <+: path ∧ base.length < path.length ∧ child.absolutePath <+: path := by
  rcases Path.parent_eq_some_iff.mp located with ⟨name, same⟩
  have below : child.absolutePath <+: path := by
    rcases child with ⟨hash, children, childPath | childPath | childPath⟩
    · have takes : childPath = path := takes
      subst takes
      exact prefix_refl _
    · exact takes
    · cases takes
  rw [same] at below
  have lengths := below.length_le
  rw [length_append, length_singleton] at lengths
  refine ⟨(prefix_append base [name]).trans below, lengths, ?_⟩
  rw [same]
  exact below

theorem takes_of_mem_files (shaped : node.Shaped) (member : file ∈ node.files) : node.Takes file.absolutePath := by
  induction shaped with
  | file hash children path size time contents =>
    unfold files at member
    rw [List.mem_singleton.mp member]
    rfl
  | directory hash children path located shaped distinct ih =>
    rw [files_directory, mem_flatMap] at member
    rcases member with ⟨child, isChild, inChild⟩
    exact (takes_parent (located child isChild) (ih child isChild inChild)).1

theorem siblings_take {first second : MerkleNode H T} (firstLocated : first.absolutePath.parent = some base)
    (secondLocated : second.absolutePath.parent = some base) (firstTakes : first.Takes path)
    (secondTakes : second.Takes path) : first.absolutePath = second.absolutePath := by
  have firstBelow := (takes_parent firstLocated firstTakes).2.2
  have secondBelow := (takes_parent secondLocated secondTakes).2.2
  rcases Path.parent_eq_some_iff.mp firstLocated with ⟨firstName, firstSame⟩
  rcases Path.parent_eq_some_iff.mp secondLocated with ⟨secondName, secondSame⟩
  apply Path.prefix_unique firstBelow secondBelow
  rw [firstSame, secondSame, length_append, length_append, length_singleton, length_singleton]

theorem key_eq_of_mem_files {first second other : MerkleNode H T} (firstShaped : first.Shaped)
    (secondShaped : second.Shaped) (firstLocated : first.absolutePath.parent = some base)
    (secondLocated : second.absolutePath.parent = some base) (inFirst : file ∈ first.files)
    (inSecond : other ∈ second.files) (same : other.absolutePath = file.absolutePath) : first.key = second.key := by
  have firstTakes := firstShaped.takes_of_mem_files inFirst
  have secondTakes := secondShaped.takes_of_mem_files inSecond
  rw [same] at secondTakes
  have samePath := siblings_take firstLocated secondLocated firstTakes secondTakes
  cases firstShaped with
  | file =>
    cases secondShaped with
    | file => exact Prod.ext rfl samePath
    | directory _ _ _ childLocated childShaped =>
      rw [files_directory, mem_flatMap] at inSecond
      rcases inSecond with ⟨child, isChild, inChild⟩
      have childTakes := (childShaped child isChild).takes_of_mem_files inChild
      rw [same] at childTakes
      have longer := (takes_parent (childLocated child isChild) childTakes).2.1
      have filePath : _ = file.absolutePath := firstTakes
      have dirPath := congrArg List.length samePath
      rw [← filePath] at longer
      exact absurd dirPath (Nat.ne_of_gt longer)
  | directory _ _ _ childLocated childShaped =>
    cases secondShaped with
    | directory => exact Prod.ext rfl samePath
    | file =>
      rw [files_directory, mem_flatMap] at inFirst
      rcases inFirst with ⟨child, isChild, inChild⟩
      have childTakes := (childShaped child isChild).takes_of_mem_files inChild
      have longer := (takes_parent (childLocated child isChild) childTakes).2.1
      have filePath : _ = file.absolutePath := secondTakes
      have dirPath := congrArg List.length samePath
      rw [← filePath] at longer
      exact absurd dirPath (Nat.ne_of_lt longer)

theorem nodup_paths (shaped : node.Shaped) : (node.files.map absolutePath).Nodup := by
  induction shaped with
  | file hash children path size time contents =>
    unfold files
    exact nodup_singleton _
  | directory hash children path located shaped distinct ih =>
    rw [files_directory, map_flatMap]
    apply List.nodup_flatMap.mpr
    refine ⟨ih, ?_⟩
    rw [List.Nodup, pairwise_map] at distinct
    apply distinct.imp_of_mem
    intro first second isFirst isSecond differ common inFirst inSecond
    rcases List.mem_map.mp inFirst with ⟨file, firstFile, rfl⟩
    rcases List.mem_map.mp inSecond with ⟨other, secondFile, same⟩
    exact differ (key_eq_of_mem_files (shaped first isFirst) (shaped second isSecond) (located first isFirst)
      (located second isSecond) firstFile secondFile same)

end Shaped

end MerkleNode

end Warp.Merkle
