import Warp.Merkle.Shape

namespace Warp.Merkle

open Chunker List

variable {H T : Type} [LinearOrder H] (env : Env H)

def fragmentsOf (path : Path) (content : Str) : List Fragment :=
  (env.chunkCode content path).filter fun fragment => fragment.content ≠ []

def fragmentNode (fragment : Fragment) : MerkleNode H T :=
  .mk (env.fromBytes fragment.content) [] (.fragment fragment.filePath (fragment.startByteIndex, fragment.endByteIndex))

structure Reads (node : MerkleNode H T) (content : Str) : Prop where
  nodeId : ∃ size time, node.nodeId = .file node.absolutePath size time (env.contentsHash content)
  children : node.children = (fragmentsOf env node.absolutePath content).map (fragmentNode env)
  nonempty : node.children ≠ []
  hash : node.hash = env.fromHashes node.childHashes

abbrev Read (H T : Type) := MerkleNode H T × Str

def locations (hash : H) (read : Read H T) : List FragmentMetadata :=
  ((fragmentsOf env read.1.absolutePath read.2).filter fun fragment => env.fromBytes fragment.content = hash).map
    .ofFragment

section Records

variable {env} {u v w : LeafToFragmentMetadataUpdates H} {gone gone' : List (MerkleNode H T)}
  {made made' : List (Read H T)}

/-- The updates from `u` to `v` take the files `gone` away and add the files `made`. -/
structure Recorded (env : Env H) (u v : LeafToFragmentMetadataUpdates H) (gone : List (MerkleNode H T))
    (made : List (Read H T)) : Prop where
  reads : ∀ read ∈ made, Reads env read.1 read.2
  removed : ∀ path hashes, v.toRemove.get? path = some hashes ↔
    u.toRemove.get? path = some hashes ∨ ∃ node ∈ gone, node.absolutePath = path ∧ node.childHashes = hashes
  inserted : ∀ hash, (v.toInsert.values hash).Perm (u.toInsert.values hash ++ made.flatMap (locations env hash))
  inhabited : u.toInsert.Inhabited → v.toInsert.Inhabited

theorem Recorded.refl (u : LeafToFragmentMetadataUpdates H) : Recorded (T := T) env u u [] [] := by
  refine ⟨nofun, ?_, ?_, id⟩
  · intro path hashes
    simp
  · intro hash
    rw [flatMap_nil, append_nil]

theorem Recorded.trans (first : Recorded env u v gone made) (second : Recorded env v w gone' made') :
    Recorded env u w (gone ++ gone') (made ++ made') := by
  refine ⟨?_, ?_, ?_, second.inhabited ∘ first.inhabited⟩
  · exact List.forall_mem_append.mpr ⟨first.reads, second.reads⟩
  · intro path hashes
    rw [second.removed, first.removed, or_assoc]
    simp only [mem_append, or_and_right, exists_or]
  · intro hash
    rw [flatMap_append, ← append_assoc]
    exact (second.inserted hash).trans ((first.inserted hash).append_right _)

/-- The updates only add the files `made`. -/
structure Adds (env : Env H) (v : LeafToFragmentMetadataUpdates H) (made : List (Read H T)) : Prop where
  reads : ∀ read ∈ made, Reads env read.1 read.2
  removed : v.toRemove = .empty
  inserted : ∀ hash, (v.toInsert.values hash).Perm (made.flatMap (locations env hash))
  inhabited : v.toInsert.Inhabited

theorem Adds.recorded (adds : Adds env v made) (u : LeafToFragmentMetadataUpdates H) :
    Recorded env u (u.merge v) [] made := by
  refine ⟨adds.reads, ?_, ?_, ?_⟩
  · intro path hashes
    have same : (u.merge v).toRemove = u.toRemove := by
      unfold LeafToFragmentMetadataUpdates.merge
      rw [adds.removed]
      rfl
    rw [same]
    simp
  · intro hash
    have merged : (u.merge v).toInsert.values hash = u.toInsert.values hash ++ v.toInsert.values hash :=
      HashMap.values_extendAll _ _ _
    rw [merged]
    exact (adds.inserted hash).append_left _
  · intro inhabited
    exact inhabited.extendAll adds.inhabited

theorem Recorded.adds (recorded : Recorded env .empty v gone made) (nothing : v.toRemove = .empty) :
    Adds env v made := by
  refine ⟨recorded.reads, nothing, ?_, ?_⟩
  · intro hash
    exact recorded.inserted hash
  · apply recorded.inhabited
    intro key
    nofun

end Records

section Collect

variable {env} {results : List (Except Error (MerkleNode H T × LeafToFragmentMetadataUpdates H))}

omit [LinearOrder H] in
theorem Except.toOption_eq_some_iff {α ε : Type} {result : Except ε α} {value : α} :
    result.toOption = some value ↔ result = .ok value := by
  cases result <;> simp [Except.toOption]

theorem merge_toRemove_of_empty {u v : LeafToFragmentMetadataUpdates H} (nothing : v.toRemove = .empty) :
    (u.merge v).toRemove = u.toRemove := by
  unfold LeafToFragmentMetadataUpdates.merge
  rw [nothing]
  rfl

theorem collectOk_spec (adding : ∀ node v, .ok (node, v) ∈ results → ∃ made : List (Read H T), Adds env v made ∧
      node.files.Perm (made.map Prod.fst)) (u : LeafToFragmentMetadataUpdates H) :
    ∃ made : List (Read H T), Recorded env u (collectOk u results).2 [] made ∧
      ((collectOk u results).1.flatMap MerkleNode.files).Perm (made.map Prod.fst) ∧
      (collectOk u results).2.toRemove = u.toRemove := by
  induction results generalizing u with
  | nil => exact ⟨[], Recorded.refl u, List.Perm.nil, rfl⟩
  | cons result results ih =>
    have later : ∀ node v, .ok (node, v) ∈ results → ∃ made : List (Read H T), Adds env v made ∧
        node.files.Perm (made.map Prod.fst) := fun node v member => adding node v (mem_cons_of_mem _ member)
    cases result with
    | error error => exact ih later u
    | ok result =>
      rcases result with ⟨node, v⟩
      rcases adding node v mem_cons_self with ⟨first, adds, firstFiles⟩
      rcases ih later (u.merge v) with ⟨rest, recorded, restFiles, removed⟩
      refine ⟨first ++ rest, (adds.recorded u).trans recorded, ?_, ?_⟩
      · rw [map_append]
        exact firstFiles.append restFiles
      · exact removed.trans (merge_toRemove_of_empty adds.removed)

theorem mem_collectOk {u : LeafToFragmentMetadataUpdates H} {node : MerkleNode H T} :
    node ∈ (collectOk u results).1 ↔ ∃ v, .ok (node, v) ∈ results := by
  unfold collectOk
  simp only [List.mem_map, mem_filterMap, Except.toOption_eq_some_iff, Prod.exists, exists_and_right,
    exists_eq_right]

end Collect

section Files

variable {env} {fs : FileSystem T} {path : Path} {node : MerkleNode H T} {v : LeafToFragmentMetadataUpdates H}

theorem collectOk_fragments (fragments : List Fragment) (u : LeafToFragmentMetadataUpdates H) :
    (collectOk u (fragments.map (newFragment (T := T) env))).1 =
        (fragments.filter fun fragment => fragment.content ≠ []).map (fragmentNode env) ∧
      (collectOk u (fragments.map (newFragment (T := T) env))).2.toRemove = u.toRemove ∧
      (u.toInsert.Inhabited → (collectOk u (fragments.map (newFragment (T := T) env))).2.toInsert.Inhabited) ∧
      ∀ hash, (collectOk u (fragments.map (newFragment (T := T) env))).2.toInsert.values hash =
        u.toInsert.values hash ++ ((fragments.filter fun fragment => fragment.content ≠ []).filter fun fragment =>
          env.fromBytes fragment.content = hash).map .ofFragment := by
  induction fragments generalizing u with
  | nil =>
    refine ⟨rfl, rfl, id, ?_⟩
    intro hash
    exact (append_nil _).symm
  | cons fragment fragments ih =>
    by_cases blank : fragment.content = []
    · have skipped : newFragment (T := T) env fragment = .error .emptyNodeContent := if_pos blank
      rw [map_cons, skipped, filter_cons_of_neg (by simp [blank])]
      exact ih u
    · let single : LeafToFragmentMetadataUpdates H :=
        ⟨.empty, HashMap.empty.insert (env.fromBytes fragment.content) [.ofFragment fragment]⟩
      have made : newFragment (T := T) env fragment = .ok (fragmentNode env fragment, single) := if_neg blank
      rw [map_cons, made, filter_cons_of_pos (by simp [blank])]
      rcases ih (u.merge single) with ⟨children, removed, inhabited, inserted⟩
      refine ⟨?_, removed, ?_, ?_⟩
      · rw [map_cons, ← children]
        rfl
      · intro before
        apply inhabited
        apply before.extendAll
        intro key found
        rw [HashMap.get?_insert] at found
        by_cases same : key = env.fromBytes fragment.content
        · rw [if_pos same] at found
          cases found
        · rw [if_neg same] at found
          cases found
      · intro hash
        have merged : (u.merge single).toInsert.values hash =
            u.toInsert.values hash ++ single.toInsert.values hash := HashMap.values_extendAll _ _ _
        refine (inserted hash).trans ?_
        rw [merged, append_assoc]
        congr 1
        have values : single.toInsert.values hash =
            if hash = env.fromBytes fragment.content then [FragmentMetadata.ofFragment fragment] else [] := by
          unfold HashMap.values
          rw [HashMap.get?_insert]
          split <;> rfl
        rw [values]
        by_cases same : env.fromBytes fragment.content = hash
        · rw [if_pos same.symm, filter_cons_of_pos (by simp [same])]
          rfl
        · rw [if_neg (Ne.symm same), filter_cons_of_neg (by simp [same])]
          rfl

omit [LinearOrder H] in
theorem reads_mk {children : List (MerkleNode H T)} {size : ℕ} {time : T} {content : Str}
    (same : children = (fragmentsOf env path content).map (fragmentNode env))
    (some : ¬((fragmentsOf env path content).map (fragmentNode (T := T) env)).isEmpty = true) :
    Reads env (.mk (env.fromHashes (children.map MerkleNode.hash)) children
      (.file path size time (env.contentsHash content))) content := by
  refine ⟨⟨_, _, rfl⟩, same, ?_, rfl⟩
  intro empty
  apply some
  rw [← same]
  exact List.isEmpty_iff.mpr empty

theorem newFile_spec (made : newFile env fs path = .ok (node, v)) :
    ∃ content, fs.readToString path = some content ∧ node.absolutePath = path ∧ node.isFile = true ∧
      Reads env node content ∧ Adds env v [(node, content)] := by
  unfold newFile at made
  cases parsable : isFileParsable fs path with
  | error error =>
    rw [parsable] at made
    cases made
  | ok small =>
    rw [parsable] at made
    cases small with
    | false => cases made
    | true =>
      cases found : fs.metadata path with
      | none =>
        rw [found] at made
        cases made
      | some metadata =>
        rcases metadata with ⟨fileSize, _ | time⟩
        · rw [found] at made
          cases made
        · cases read : fs.readToString path with
          | none =>
            rw [found, read] at made
            cases made
          | some content =>
            rcases @collectOk_fragments _ T _ env (env.chunkCode content path) .empty with
              ⟨children, removed, inhabited, inserted⟩
            rw [found, read] at made
            change (if (collectOk .empty ((env.chunkCode content path).map (newFragment (T := T) env))).1.isEmpty = true
              then (.error .emptyNodeContent : Except Error _) else _) = _ at made
            rw [children] at made
            by_cases nothing : (((env.chunkCode content path).filter fun fragment => fragment.content ≠ []).map
                (fragmentNode (T := T) env)).isEmpty = true
            · rw [if_pos nothing] at made
              cases made
            · rw [if_neg nothing] at made
              injection made with same
              injection same with sameNode sameUpdates
              subst sameNode sameUpdates
              have reads := @reads_mk _ _ _ _ _ fileSize time _ children nothing
              refine ⟨content, rfl, rfl, rfl, reads, List.forall_mem_singleton.mpr reads, removed, ?_, ?_⟩
              · intro hash
                rw [flatMap_singleton]
                exact List.Perm.of_eq (inserted hash)
              · apply inhabited
                nofun

theorem newFile_small (made : newFile env fs path = .ok (node, v)) :
    ∃ size time, fs.metadata path = some (size, time) ∧ size < maxFileSize := by
  unfold newFile isFileParsable at made
  cases found : fs.metadata path with
  | none =>
    rw [found] at made
    cases made
  | some metadata =>
    rcases metadata with ⟨size, time⟩
    refine ⟨size, time, rfl, ?_⟩
    by_contra large
    have notParsable : decide (size < maxFileSize) = false := decide_eq_false large
    rw [found] at made
    dsimp only at made
    rw [notParsable] at made
    cases made

theorem newFile_isOk {size : ℕ} {time : T} {content : Str} (found : fs.metadata path = some (size, some time))
    (small : size < maxFileSize) (read : fs.readToString path = some content) (some : fragmentsOf env path content ≠ []) :
    ∃ node v, newFile env fs path = .ok (node, v) := by
  have parsable : isFileParsable fs path = .ok true := by
    unfold isFileParsable
    rw [found]
    exact congrArg Except.ok (decide_eq_true small)
  have children := (@collectOk_fragments _ T _ env (env.chunkCode content path) .empty).1
  unfold newFile
  rw [parsable, found, read]
  change ∃ node v, (if (collectOk .empty ((env.chunkCode content path).map (newFragment (T := T) env))).1.isEmpty = true
    then (.error .emptyNodeContent : Except Error _) else _) = .ok (node, v)
  rw [children, if_neg]
  · exact ⟨_, _, rfl⟩
  · intro empty
    rw [List.isEmpty_iff, map_eq_nil_iff] at empty
    exact some empty

end Files

end Warp.Merkle
