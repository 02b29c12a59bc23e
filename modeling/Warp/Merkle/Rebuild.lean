import Warp.Merkle.Mapping

namespace Warp.Merkle

open List

variable {H T : Type} [LinearOrder H] {env : Env H}

section SameFiles

variable {node other : MerkleNode H T}

variable {file : MerkleNode H T}

theorem Right.reads_of_mem_files (right : Right env node) (member : file ∈ node.files) :
    ∃ content, Reads env file content := by
  induction right with
  | file node content reads =>
    rcases reads.nodeId with ⟨size, time, isFile⟩
    have kind : node.isFile = true := by
      unfold MerkleNode.isFile
      rw [isFile]
    rw [MerkleNode.files_of_isFile kind, mem_singleton] at member
    rw [member]
    exact ⟨content, reads⟩
  | directory hash children path right sorted same ih =>
    rw [MerkleNode.files_directory, mem_flatMap] at member
    rcases member with ⟨child, isChild, inChild⟩
    exact ih child isChild inChild

def HasFile (env : Env H) (node : MerkleNode H T) (path : Path) (content : Str) : Prop :=
  ∃ file ∈ node.files, file.absolutePath = path ∧ Reads env file content

omit [LinearOrder H] in
theorem Reads.hash_eq {other : MerkleNode H T} {content : Str} (reads : Reads env file content)
    (otherReads : Reads env other content) (same : file.absolutePath = other.absolutePath) : file.hash = other.hash := by
  rw [reads.hash, otherReads.hash]
  unfold MerkleNode.childHashes
  rw [reads.children, otherReads.children, same]

omit [LinearOrder H] in
theorem exists_matching {hash otherHash : H} {children otherChildren : List (MerkleNode H T)} {path : Path}
    (shaped : (MerkleNode.mk hash children (.directory path)).Shaped)
    (otherShaped : (MerkleNode.mk otherHash otherChildren (.directory path)).Shaped)
    (files : ∀ file content, HasFile env (.mk hash children (.directory path)) file content → HasFile env (.mk otherHash otherChildren (.directory path)) file content)
    {child : MerkleNode H T} (isChild : child ∈ children) (inChild : file ∈ child.files) {content : Str}
    (reads : Reads env file content) :
    ∃ otherChild ∈ otherChildren, otherChild.key = child.key ∧ HasFile env otherChild file.absolutePath content := by
  have inNode : file ∈ (MerkleNode.mk hash children (.directory path)).files := by
    rw [MerkleNode.files_directory]
    exact List.mem_flatMap.mpr ⟨child, isChild, inChild⟩
  rcases files _ content ⟨file, inNode, rfl, reads⟩ with ⟨found, inOther, samePath, foundReads⟩
  rw [MerkleNode.files_directory, mem_flatMap] at inOther
  rcases inOther with ⟨otherChild, isOther, inOtherChild⟩
  cases shaped with
  | directory _ _ _ located childrenShaped =>
    cases otherShaped with
    | directory _ _ _ otherLocated otherChildrenShaped =>
      have sameKey := MerkleNode.Shaped.key_eq_of_mem_files (childrenShaped child isChild)
        (otherChildrenShaped otherChild isOther) (located child isChild) (otherLocated otherChild isOther) inChild
        inOtherChild samePath
      exact ⟨otherChild, isOther, sameKey.symm, found, inOtherChild, samePath, foundReads⟩

omit [LinearOrder H] in
theorem eq_of_key_eq {children : List (MerkleNode H T)} (distinct : (children.map MerkleNode.key).Nodup)
    {child other : MerkleNode H T} (isChild : child ∈ children) (isOther : other ∈ children)
    (same : other.key = child.key) : other = child :=
  inj_on_of_nodup_map distinct isOther isChild same

theorem hash_eq_of_same_files (shaped : node.Shaped) (right : Right env node) (populated : Populated (fun _ => False) node)
    (otherShaped : other.Shaped) (otherRight : Right env other) (otherPopulated : Populated (fun _ => False) other)
    (sameKey : other.key = node.key)
    (files : ∀ path content, HasFile env node path content ↔ HasFile env other path content) : node.hash = other.hash := by
  induction shaped generalizing other with
  | file hash children path size time contents =>
    rcases right.reads_of_mem_files (mem_singleton_self _) with ⟨content, reads⟩
    rcases (files path content).mp ⟨_, mem_singleton_self _, rfl, reads⟩ with ⟨found, inOther, samePath, foundReads⟩
    cases otherShaped with
    | file =>
      rw [MerkleNode.files_of_isFile rfl, mem_singleton] at inOther
      subst inOther
      exact reads.hash_eq foundReads samePath.symm
    | directory => cases congrArg Prod.fst sameKey
  | directory hash children path located shaped distinct ih =>
    have nodeShaped := MerkleNode.Shaped.directory hash children path located shaped distinct
    cases otherShaped with
    | file => cases congrArg Prod.fst sameKey
    | directory otherHash otherChildren otherPath otherLocated otherShaped otherDistinct =>
      have samePath : otherPath = path := congrArg Prod.snd sameKey
      subst samePath
      have otherNodeShaped := MerkleNode.Shaped.directory otherHash otherChildren otherPath otherLocated otherShaped
        otherDistinct
      cases populated with
      | file _ isFile => cases isFile
      | directory _ _ _ _ populated =>
      cases otherPopulated with
      | file _ isFile => cases isFile
      | directory _ _ _ _ otherPopulated =>
      cases right with
      | file _ _ reads =>
        rcases reads.nodeId with ⟨_, _, isFile⟩
        cases isFile
      | directory _ _ _ right sorted same =>
      cases otherRight with
      | file _ _ reads =>
        rcases reads.nodeId with ⟨_, _, isFile⟩
        cases isFile
      | directory _ _ _ otherRight otherSorted otherSame =>
      have forth : ∀ child ∈ children, ∀ file ∈ child.files, ∀ content, Reads env file content →
          ∃ otherChild ∈ otherChildren, otherChild.key = child.key ∧
            HasFile env otherChild file.absolutePath content :=
        fun child isChild file inChild content reads =>
          exists_matching nodeShaped otherNodeShaped (fun path content => (files path content).mp) isChild inChild reads
      have back : ∀ otherChild ∈ otherChildren, ∀ file ∈ otherChild.files, ∀ content, Reads env file content →
          ∃ child ∈ children, child.key = otherChild.key ∧ HasFile env child file.absolutePath content :=
        fun otherChild isOther file inOther content reads =>
          exists_matching otherNodeShaped nodeShaped (fun path content => (files path content).mpr) isOther inOther reads
      have matching : ∀ child ∈ children, ∀ otherChild ∈ otherChildren, otherChild.key = child.key →
          child.hash = otherChild.hash := by
        intro child isChild otherChild isOther same
        apply ih child isChild (right child isChild) (populated child isChild) (otherShaped otherChild isOther)
          (otherRight otherChild isOther) (otherPopulated otherChild isOther) same
        intro filePath content
        constructor
        · intro has
          rcases has with ⟨file, inChild, rfl, reads⟩
          rcases forth child isChild file inChild content reads with ⟨found, isFound, foundKey, has⟩
          rw [eq_of_key_eq otherDistinct isOther isFound (foundKey.trans same.symm)] at has
          exact has
        · intro has
          rcases has with ⟨file, inOther, rfl, reads⟩
          rcases back otherChild isOther file inOther content reads with ⟨found, isFound, foundKey, has⟩
          rw [eq_of_key_eq distinct isChild isFound (foundKey.trans same)] at has
          exact has
      -- the children as pairs of key and hash
      have pairs : (children.map fun child => (child.key, child.hash)).Perm
          (otherChildren.map fun child => (child.key, child.hash)) := by
        have keysOf : ∀ nodes : List (MerkleNode H T),
            (nodes.map fun child => (child.key, child.hash)).map Prod.fst = nodes.map MerkleNode.key := by
          intro nodes
          rw [List.map_map]
          rfl
        apply (perm_ext_iff_of_nodup ?_ ?_).mpr
        · intro pair
          constructor
          · intro member
            rcases List.mem_map.mp member with ⟨child, isChild, rfl⟩
            rcases exists_mem_files (populated child isChild) with ⟨file, inChild⟩
            rcases (right child isChild).reads_of_mem_files inChild with ⟨content, reads⟩
            rcases forth child isChild file inChild content reads with ⟨found, isFound, foundKey, -⟩
            refine List.mem_map.mpr ⟨found, isFound, ?_⟩
            rw [foundKey, matching child isChild found isFound foundKey]
          · intro member
            rcases List.mem_map.mp member with ⟨otherChild, isOther, rfl⟩
            rcases exists_mem_files (otherPopulated otherChild isOther) with ⟨file, inOther⟩
            rcases (otherRight otherChild isOther).reads_of_mem_files inOther with ⟨content, reads⟩
            rcases back otherChild isOther file inOther content reads with ⟨found, isFound, foundKey, -⟩
            refine List.mem_map.mpr ⟨found, isFound, ?_⟩
            rw [foundKey, matching found isFound otherChild isOther foundKey.symm]
        · apply List.Nodup.of_map Prod.fst
          rw [keysOf]
          exact distinct
        · apply List.Nodup.of_map Prod.fst
          rw [keysOf]
          exact otherDistinct
      have hashes : (children.map MerkleNode.hash).Perm (otherChildren.map MerkleNode.hash) := by
        have second := pairs.map Prod.snd
        rw [List.map_map, List.map_map] at second
        exact second
      have sameHashes : children.map MerkleNode.hash = otherChildren.map MerkleNode.hash :=
        hashes.eq_of_pairwise' (List.pairwise_map.mpr sorted) (List.pairwise_map.mpr otherSorted)
      change hash = otherHash
      rw [same, otherSame, sameHashes]

end SameFiles

end Warp.Merkle
