import Warp.Merkle.WalkRun

namespace Warp.Merkle

open Creation

variable {H T : Type} [LinearOrder H] {env : Env H} {fs : FileSystem T}

def Fresh (env : Env H) (fs : FileSystem T) (file : MerkleNode H T) : Prop :=
  ∃ updates, newFile env fs file.absolutePath = .ok (file, updates)

structure Ready (env : Env H) (fs : FileSystem T) (file : MerkleNode H T) : Prop where
  threadpool : env.threadpool = true
  isDir : fs.isDir file.absolutePath = false
  pathExists : fs.pathExists file.absolutePath = true
  fresh : Fresh env fs file

theorem Recorded.take {u : LeafToFragmentMetadataUpdates H} {node : MerkleNode H T}
    (missing : u.toRemove.get? node.absolutePath = none) :
    Recorded (T := T) env u { u with toRemove := u.toRemove.insert node.absolutePath node.childHashes } [node] [] := by
  refine ⟨nofun, ?_, ?_, id⟩
  · intro path hashes
    dsimp only
    rw [HashMap.get?_insert]
    by_cases same : path = node.absolutePath
    · rw [if_pos same, same, missing]
      simp
    · rw [if_neg same]
      simp [Ne.symm same]
  · intro hash
    rw [List.flatMap_nil, List.append_nil]

theorem Creates.nothing {fresh ready : MerkleNode H T → Prop} (path : Path) (remaining : HashSet Path)
    (u : LeafToFragmentMetadataUpdates H) (noneReady : ∀ file, ¬ready file) :
    Creates env fresh ready path remaining u u [] := by
  constructor
  · nofun
  · nofun
  · exact List.nodup_nil
  · nofun
  · nofun
  · nofun
  · exact ⟨[], Recorded.refl u, List.Perm.nil⟩
  · exact fun file isReady => absurd isReady (noneReady file)

theorem remover_lawful : Lawful env (remover : Updater H T) (fun _ => False) (fun _ => False) False := by
  constructor
  · intro node u result next v isFile missing visited
    injection visited with isDeleted rest
    injection rest with _ updates
    subst isDeleted updates
    exact .inl ⟨rfl, Recorded.take missing, fun _ => False.elim⟩
  · exact fun path remaining u => Creates.nothing path remaining u fun _ => id
  · nofun
  · exact fun _ _ _ => False.elim

theorem Ready.mem_creatable {file : MerkleNode H T} {path : Path} {remaining : HashSet Path} (isReady : Ready env fs file)
    (inRemaining : file.absolutePath ∈ remaining) (below : Below path file.absolutePath) :
    file.absolutePath ∈ (entriesToCreate fs path remaining).flatMap Entry.files := by
  rw [(entriesToCreate_spec fs path remaining).2.mem_iff, List.mem_filter]
  exact ⟨inRemaining, decide_eq_true ⟨below, isReady.isDir, isReady.pathExists⟩⟩

theorem upserter_creates (path : Path) (remaining : HashSet Path) (u : LeafToFragmentMetadataUpdates H) :
    Creates env (Fresh env fs) (Ready env fs) path remaining u
      (collectOk u ((entriesToCreate fs path remaining).map (newEntry env fs))).2
      (collectOk u ((entriesToCreate fs path remaining).map (newEntry env fs))).1 := by
  rcases entriesToCreate_spec fs path remaining with ⟨level, files⟩
  have making : ∀ entry ∈ entriesToCreate fs path remaining, ∀ (node : MerkleNode H T) v,
      newEntry env fs entry = .ok (node, v) → ∃ made, Makes env fs entry node v made := fun entry _ => newEntry_spec entry
  rcases collected_shaped making level.located level.shaped level.distinct u with ⟨shaped, distinct⟩
  constructor
  · exact fun node member => (shaped node member).1
  · exact fun node member => (shaped node member).2
  · exact distinct
  · intro node member
    rcases mem_collected.mp member with ⟨entry, isEntry, v, made⟩
    rcases making entry isEntry node v made with ⟨reads, makes⟩
    exact makes.right
  · intro node member
    rcases mem_collected.mp member with ⟨entry, isEntry, v, made⟩
    rcases making entry isEntry node v made with ⟨reads, makes⟩
    exact makes.populated
  · intro file member
    rcases List.mem_flatMap.mp member with ⟨node, isNode, inNode⟩
    rcases mem_collected.mp isNode with ⟨entry, isEntry, v, made⟩
    rcases making entry isEntry node v made with ⟨reads, makes⟩
    rcases makes.fresh file inNode with ⟨inEntry, isFresh⟩
    have listed := files.mem_iff.mp (List.mem_flatMap.mpr ⟨entry, isEntry, inEntry⟩)
    exact ⟨isFresh, (List.mem_filter.mp listed).1⟩
  · rcases collectOk_entries making u with ⟨reads, recorded, madeFiles, -⟩
    exact ⟨reads, recorded, madeFiles⟩
  · intro file isReady inRemaining below
    rcases List.mem_flatMap.mp (isReady.mem_creatable inRemaining below) with ⟨entry, isEntry, inEntry⟩
    rcases isReady.fresh with ⟨updates, readable⟩
    rcases newEntry_complete isReady.threadpool entry inEntry readable with ⟨node, v, made, inNode⟩
    exact List.mem_flatMap.mpr ⟨node, mem_collected.mpr ⟨entry, isEntry, v, made⟩, inNode⟩

theorem upserter_lawful : Lawful env (upserter env fs) (Fresh env fs) (Ready env fs) True := by
  constructor
  · intro node u result next v isFile missing visited
    have taken := @Recorded.take _ _ _ env _ _ missing
    dsimp only [upserter] at visited
    by_cases gone : (!fs.pathExists node.absolutePath) = true
    · rw [if_pos gone] at visited
      injection visited with isDeleted rest
      injection rest with _ updates
      subst isDeleted updates
      refine .inl ⟨rfl, taken, ?_⟩
      intro file isReady same
      have found := isReady.pathExists
      rw [same] at found
      rw [found] at gone
      cases gone
    · rw [if_neg gone] at visited
      cases made : newFile env fs node.absolutePath with
      | error error =>
        rw [made] at visited
        injection visited with isDeleted rest
        injection rest with _ updates
        subst isDeleted updates
        refine .inl ⟨rfl, taken, ?_⟩
        intro file isReady same
        rcases isReady.fresh with ⟨updates, readable⟩
        rw [same, made] at readable
        cases readable
      | ok result =>
        rcases result with ⟨newNode, mappingUpdate⟩
        rw [made] at visited
        injection visited with isUpdated rest
        injection rest with sameNode updates
        subst isUpdated sameNode updates
        rcases newFile_spec made with ⟨content, read, samePath, newFile, reads, adds⟩
        refine .inr ⟨rfl, newFile, samePath, ⟨mappingUpdate, ?_⟩, ⟨content, ?_⟩, ?_⟩
        · rw [samePath]
          exact made
        · exact taken.trans (adds.recorded _)
        · intro file isReady same
          rcases isReady.fresh with ⟨updates, readable⟩
          rw [same, made] at readable
          injection readable with both
          exact (congrArg Prod.fst both).symm
  · exact fun path remaining u => upserter_creates path remaining u
  · intro remaining isCreating
    rcases remaining with ⟨elems, distinct⟩
    cases elems with
    | nil => cases isCreating
    | cons path elems => exact ⟨trivial, path, List.mem_cons_self⟩
  · intro remaining idle file _
    have empty : remaining.isEmpty = true := by
      cases found : remaining.isEmpty with
      | true => rfl
      | false =>
        have creating : (!remaining.isEmpty) = false := idle
        rw [found] at creating
        cases creating
    exact HashSet.isEmpty_iff.mp empty _

end Warp.Merkle
