import Warp.Merkle.Walk

namespace Warp.Merkle

open List

variable {H T : Type} [LinearOrder H] {env : Env H} {updater : Updater H T} {fresh ready : MerkleNode H T → Prop} {keeps : Prop}
  {paths remaining : HashSet Path} {u v : LeafToFragmentMetadataUpdates H} {children : List (MerkleNode H T)}

section Children

variable {child : MerkleNode H T} {step : Step H T} {kept : List (MerkleNode H T × Option NodeMask)}

omit [LinearOrder H] in
theorem keepVisited_unchanged (children : List (MerkleNode H T)) :
    keepVisited (children.map fun other => ⟨.noChange, other, .all 0⟩) = children.map fun other => (other, none) := by
  induction children with
  | nil => rfl
  | cons child children ih => exact congrArg ((child, none) :: ·) ih

theorem ChildrenWalked.unchanged (shaped : ∀ child ∈ children, child.Shaped)
    (apart : ∀ path ∈ paths, ∀ child ∈ children, ¬child.Takes path) :
    ChildrenWalked env fresh ready keeps paths u children (children.map fun other => (other, none)) paths u := by
  have mem : ∀ entry ∈ children.map fun other => (other, (none : Option NodeMask)), entry.1 ∈ children ∧ entry.2 = none := by
    intro entry member
    rcases List.mem_map.mp member with ⟨child, isChild, rfl⟩
    exact ⟨isChild, rfl⟩
  constructor
  · exact fun path => ⟨fun member => ⟨member, apart path member⟩, And.left⟩
  · rw [List.map_map]
    exact List.Sublist.refl _
  · rw [flatMap_map]
    exact ⟨[], [], Changed.refl paths u _⟩
  · exact fun entry member => shaped _ (mem entry member).1
  · exact fun right entry member => right _ (mem entry member).1
  · intro entry member mask isMask
    rw [(mem entry member).2] at isMask
    cases isMask
  · intro _ _ _ entry member file inEntry inPaths
    rcases mem entry member with ⟨isChild, -⟩
    exact absurd ((shaped _ isChild).takes_of_mem_files inEntry) (apart _ inPaths _ isChild)
  · intro _ file _ inPaths taken
    rcases taken with ⟨child, isChild, takes⟩
    exact absurd takes (apart _ inPaths child isChild)
  · intro clear entry member
    exact ⟨entry.1, (mem entry member).1, (clear _ (mem entry member).1).populated.mono fun _ => False.elim⟩

omit [LinearOrder H] in
theorem Excused.mono (subset : ∀ path ∈ remaining, path ∈ paths) {node : MerkleNode H T} (path : Path)
    (excused : Excused keeps remaining node path) : Excused keeps paths node path := by
  rcases excused with ⟨keep, takes, some, other, member, isPrefix, apart⟩
  exact ⟨keep, takes, some, other, subset other member, isPrefix, apart⟩

omit [LinearOrder H] in
theorem mem_keepVisited_single {entry : MerkleNode H T × Option NodeMask}
    (member : entry ∈ keepVisited [⟨step.result, step.node, step.mask⟩]) :
    step.result ≠ .deleted ∧ entry.1 = step.node ∧ ∀ mask, entry.2 = some mask → mask = step.mask := by
  rcases step with ⟨_ | _ | _, node, mask, paths, updates⟩
  · cases member
  · rw [List.mem_singleton.mp member]
    exact ⟨nofun, rfl, fun other same => (Option.some_inj.mp same).symm⟩
  · rw [List.mem_singleton.mp member]
    exact ⟨nofun, rfl, nofun⟩

omit [LinearOrder H] in
theorem keepVisited_single_files (step : Step H T) :
    (keepVisited [⟨step.result, step.node, step.mask⟩]).flatMap (fun entry => entry.1.files) = step.files := by
  rcases step with ⟨_ | _ | _, node, mask, paths, updates⟩
  · rfl
  · exact append_nil _
  · exact append_nil _

theorem ChildrenWalked.cons (shaped : ∀ other ∈ child :: children, other.Shaped)
    (head : Walked env fresh ready keeps paths u child step)
    (tail : ChildrenWalked env fresh ready keeps step.paths step.updates children kept remaining v) :
    ChildrenWalked env fresh ready keeps paths u (child :: children)
      (keepVisited [⟨step.result, step.node, step.mask⟩] ++ kept) remaining v := by
  have subset : ∀ path ∈ step.paths, path ∈ paths := fun path member => ((head.left path).mp member).1
  constructor
  · intro path
    rw [tail.remaining, head.left, and_assoc, forall_mem_cons]
  · have headKeys : ((keepVisited [⟨step.result, step.node, step.mask⟩]).map fun entry => entry.1.key).Sublist
        [child.key] := by
      have same := head.key
      rcases step with ⟨_ | _ | _, node, mask, paths, updates⟩
      · exact nil_sublist _
      · rw [← same nofun]
        exact List.Sublist.refl _
      · rw [← same nofun]
        exact List.Sublist.refl _
    rw [map_append, map_cons]
    exact headKeys.append tail.keys
  · rcases head.changed with ⟨gone, made, changed⟩
    rcases tail.changed with ⟨gone', made', changed'⟩
    rw [flatMap_append, keepVisited_single_files, flatMap_cons]
    exact ⟨_, _, changed.append (changed'.mono subset)⟩
  · rw [forall_mem_append]
    refine ⟨?_, tail.shaped⟩
    intro entry member
    rcases mem_keepVisited_single member with ⟨stays, same, -⟩
    rw [same]
    exact head.shaped stays
  · intro right
    rw [forall_mem_cons] at right
    rw [forall_mem_append]
    refine ⟨?_, tail.right right.2⟩
    intro entry member
    rcases mem_keepVisited_single member with ⟨stays, same, -⟩
    rw [same]
    exact head.right stays right.1
  · rw [forall_mem_append]
    refine ⟨?_, tail.mask⟩
    intro entry member mask isMask
    rcases mem_keepVisited_single member with ⟨stays, same, masked⟩
    rw [same, masked mask isMask]
    exact head.mask
  · intro clear separate distinct
    rw [forall_mem_cons] at clear
    rw [flatMap_cons, map_append] at distinct
    have tailSeparate : Separate children := by
      intro other isOther file member takes
      refine separate other (mem_cons_of_mem _ isOther) file ?_ takes
      rw [flatMap_cons]
      exact mem_append_right _ member
    rw [forall_mem_append]
    constructor
    · intro entry member file inEntry inPaths
      rcases mem_keepVisited_single member with ⟨stays, same, -⟩
      rw [same] at inEntry
      have inStep : file ∈ step.files := by
        unfold Step.files
        rw [if_neg stays]
        exact inEntry
      exact head.updated clear.1 file inStep inPaths
    · intro entry member file inEntry inPaths
      by_cases inLeft : file.absolutePath ∈ step.paths
      · exact tail.updated clear.2 tailSeparate (List.nodup_append.mp distinct).2.1 entry member file inEntry inLeft
      · rcases tail.changed with ⟨gone', made', changed'⟩
        rcases changed'.old_or_fresh (List.mem_flatMap.mpr ⟨entry, member, inEntry⟩) with old | new
        · -- a file further on is not taken by this child
          have takes : child.Takes file.absolutePath := by
            rw [head.left] at inLeft
            exact of_not_not fun apart => inLeft ⟨inPaths, apart⟩
          have inAll : file ∈ (child :: children).flatMap MerkleNode.files := by
            rw [flatMap_cons]
            exact mem_append_right _ old
          have inChild := separate child mem_cons_self file inAll takes
          exact absurd rfl ((List.nodup_append.mp distinct).2.2 _ (List.mem_map_of_mem inChild) _ (List.mem_map_of_mem old))
        · exact new.1
  · intro clear file isReady inPaths taken apart
    rw [forall_mem_cons] at clear
    rw [flatMap_cons, forall_mem_append] at apart
    by_cases takes : child.Takes file.absolutePath
    · have inStep := head.complete clear.1 file isReady inPaths takes apart.1
      rw [← keepVisited_single_files, mem_flatMap] at inStep
      rcases inStep with ⟨entry, member, inEntry⟩
      exact ⟨entry, mem_append_left _ member, inEntry⟩
    · rcases taken with ⟨other, isOther, otherTakes⟩
      rcases List.mem_cons.mp isOther with rfl | later
      · exact absurd otherTakes takes
      · have inLeft := (head.left _).mpr ⟨inPaths, takes⟩
        rcases tail.complete clear.2 file isReady inLeft ⟨other, later, otherTakes⟩ apart.2 with ⟨entry, member, inEntry⟩
        exact ⟨entry, mem_append_right _ member, inEntry⟩
  · intro clear
    rw [forall_mem_cons] at clear
    rw [forall_mem_append]
    constructor
    · intro entry member
      rcases mem_keepVisited_single member with ⟨stays, same, -⟩
      rw [same]
      exact ⟨child, mem_cons_self, head.populated stays clear.1⟩
    · intro entry member
      rcases tail.populated clear.2 entry member with ⟨other, isOther, populated⟩
      exact ⟨other, mem_cons_of_mem _ isOther, populated.mono (Excused.mono subset)⟩

end Children

section Directory

variable {hash : H} {path : Path} {mask : NodeMask} {kept : List (MerkleNode H T × Option NodeMask)}
  {under : HashSet Path}

omit [LinearOrder H] in
theorem takes_congr {node other : MerkleNode H T} (shaped : node.Shaped) (otherShaped : other.Shaped)
    (same : node.key = other.key) {path : Path} (takes : node.Takes path) : other.Takes path := by
  cases shaped with
  | file =>
    cases otherShaped with
    | file => exact (congrArg Prod.snd same).symm.trans takes
    | directory => cases congrArg Prod.fst same
  | directory _ _ base =>
    cases otherShaped with
    | file => cases congrArg Prod.fst same
    | directory _ _ otherBase =>
      have samePath : base = otherBase := congrArg Prod.snd same
      subst samePath
      exact takes

omit [LinearOrder H] in
theorem Excused.of_child {child : MerkleNode H T} (clear : Clear (.mk hash children (.directory path)))
    (isChild : child ∈ children) (subset : ∀ path ∈ under, path ∈ paths) (dir : Path) (excused : Excused keeps under child dir) :
    Excused keeps paths (.mk hash children (.directory path)) dir := by
  rcases excused with ⟨keep, takes, ⟨file, inChild, below⟩, other, member, isPrefix, apart⟩
  have childClear := clear.of_mem isChild
  have childTakes : child.Takes other := by
    cases childClear.shaped with
    | file =>
      rw [MerkleNode.files_of_isFile rfl, mem_singleton] at inChild
      subst inChild
      have same : _ = dir := takes
      exact absurd same below.2
    | directory => exact takes.trans isPrefix
  cases clear.shaped with
  | directory _ _ _ located =>
    refine ⟨keep, (MerkleNode.Shaped.takes_parent (located child isChild) takes).1, ⟨file, ?_, below⟩, other,
      subset other member, isPrefix, ?_⟩
    · rw [MerkleNode.files_directory]
      exact List.mem_flatMap.mpr ⟨child, isChild, inChild⟩
    · intro own isOwn same
      rw [MerkleNode.files_directory] at isOwn
      rw [← same] at childTakes
      exact apart own (clear.separate child isChild own isOwn childTakes) same

theorem Walked.deleted (lawful : Lawful env updater fresh ready keeps)
    (inUnder : ∀ other, other ∈ under ↔ other ∈ paths ∧ path <+: other)
    (walked : ChildrenWalked env fresh ready keeps under u children [] remaining v)
    (idle : updater.creates remaining = false) (otherPaths : HashSet Path)
    (inOthers : ∀ other, other ∈ otherPaths ↔ other ∈ paths ∧ ¬path <+: other)
    (start : ∀ node : MerkleNode H T, mask.ValidFor node) :
    Walked env fresh ready keeps paths u (.mk hash children (.directory path))
      ⟨.deleted, .mk hash [] (.directory path), mask, otherPaths, v⟩ := by
  have subset : ∀ other ∈ under, other ∈ paths := fun other member => ((inUnder other).mp member).1
  constructor
  · exact inOthers
  · exact fun stays => absurd rfl stays
  · rcases walked.changed with ⟨gone, made, changed⟩
    rw [MerkleNode.files_directory]
    exact ⟨gone, made, changed.mono subset⟩
  · exact fun stays => absurd rfl stays
  · exact fun stays => absurd rfl stays
  · exact start _
  · exact fun _ _ => ⟨rfl, rfl⟩
  · nofun
  · intro clear file isReady inPaths takes apart
    rw [MerkleNode.files_directory] at apart
    have isUnder : file.absolutePath ∈ under := (inUnder _).mpr ⟨inPaths, takes⟩
    by_cases taken : ∃ child ∈ children, child.Takes file.absolutePath
    · rcases walked.complete (fun child => clear.of_mem) file isReady isUnder taken apart with ⟨entry, member, -⟩
      cases member
    · have inRemaining : file.absolutePath ∈ remaining :=
        (walked.remaining _).mpr ⟨isUnder, fun child isChild childTakes => taken ⟨child, isChild, childTakes⟩⟩
      exact absurd inRemaining (lawful.idle remaining idle file isReady)
  · exact fun stays => absurd rfl stays

theorem arranged_files (created : List (MerkleNode H T)) (mask : NodeMask) :
    ((arrange (kept ++ created.map fun child => (child, some (.all 0))) mask).1.flatMap MerkleNode.files).Perm
      (kept.flatMap (fun entry => entry.1.files) ++ created.flatMap MerkleNode.files) := by
  refine ((arrange_perm _ mask).flatMap_right MerkleNode.files).trans ?_
  rw [map_append, List.map_map, flatMap_append, flatMap_map, flatMap_map]
  exact List.Perm.refl _

theorem mem_arranged {created : List (MerkleNode H T)} {child : MerkleNode H T} :
    child ∈ (arrange (kept ++ created.map fun child => (child, some (.all 0))) mask).1 ↔
      (∃ childMask, (child, childMask) ∈ kept) ∨ child ∈ created := by
  rw [mem_arrange]
  simp only [mem_append, exists_or]
  apply or_congr Iff.rfl
  constructor
  · intro found
    rcases found with ⟨childMask, member⟩
    rcases List.mem_map.mp member with ⟨other, isCreated, same⟩
    injection same with same
    rw [← same]
    exact isCreated
  · intro isCreated
    exact ⟨_, List.mem_map_of_mem isCreated⟩

theorem arranged_distinct {created : List (MerkleNode H T)} (shaped : ∀ child ∈ children, child.Shaped)
    (distinct : (children.map MerkleNode.key).Nodup)
    (walked : ChildrenWalked env fresh ready keeps under u children kept remaining v) {w : LeafToFragmentMetadataUpdates H}
    (creates : Creates env fresh ready path remaining v w created) :
    ((arrange (kept ++ created.map fun child => (child, some (.all 0))) mask).1.map MerkleNode.key).Nodup := by
  apply ((arrange_perm _ mask).map MerkleNode.key).nodup_iff.mpr
  rw [map_append, map_append, List.map_map, List.map_map, List.map_map]
  apply List.nodup_append.mpr
  refine ⟨distinct.sublist walked.keys, creates.distinct, ?_⟩
  intro key isKept other isCreated same
  rcases List.mem_map.mp (walked.keys.subset isKept) with ⟨child, isChild, rfl⟩
  rcases List.mem_map.mp isCreated with ⟨node, isNode, rfl⟩
  -- the node was made for a path that the child would have taken
  rcases exists_mem_files (creates.populated node isNode) with ⟨file, inNode⟩
  have inRemaining := (creates.files file (List.mem_flatMap.mpr ⟨node, isNode, inNode⟩)).2
  have nodeTakes := (creates.shaped node isNode).takes_of_mem_files inNode
  have childTakes := takes_congr (creates.shaped node isNode) (shaped child isChild) same.symm nodeTakes
  exact ((walked.remaining _).mp inRemaining).2 child isChild childTakes

theorem Walked.directory (lawful : Lawful env updater fresh ready keeps)
    (shaped : (MerkleNode.mk hash children (.directory path)).Shaped)
    (inUnder : ∀ other, other ∈ under ↔ other ∈ paths ∧ path <+: other)
    (walked : ChildrenWalked env fresh ready keeps under u children kept remaining v)
    (stays : kept = [] → updater.creates remaining = true) (otherPaths : HashSet Path)
    (inOthers : ∀ other, other ∈ otherPaths ↔ other ∈ paths ∧ ¬path <+: other)
    (start : ∀ node : MerkleNode H T, mask.ValidFor node) :
    Walked env fresh ready keeps paths u (.mk hash children (.directory path))
      ⟨.updated, .mk (env.fromHashes ((arrange (kept ++ (updater.create path remaining v).1.map fun child =>
          (child, some (.all 0))) mask).1.map MerkleNode.hash))
        (arrange (kept ++ (updater.create path remaining v).1.map fun child => (child, some (.all 0))) mask).1
        (.directory path),
        (arrange (kept ++ (updater.create path remaining v).1.map fun child => (child, some (.all 0))) mask).2,
        otherPaths, (updater.create path remaining v).2⟩ := by
  have subset : ∀ other ∈ under, other ∈ paths := fun other member => ((inUnder other).mp member).1
  have creates := lawful.create path remaining v
  generalize (updater.create path remaining v).1 = created at creates ⊢
  generalize (updater.create path remaining v).2 = w at creates ⊢
  have inPathsOfRemaining : ∀ other ∈ remaining, other ∈ paths := fun other member =>
    subset other ((walked.remaining other).mp member).1
  have files := @arranged_files _ _ _ kept created mask
  have stepFiles : ∀ (newHash : H) newMask, Step.files ⟨.updated, .mk newHash
      (arrange (kept ++ created.map fun child => (child, some (.all 0))) mask).1 (.directory path), newMask, otherPaths, w⟩ =
      (arrange (kept ++ created.map fun child => (child, some (.all 0))) mask).1.flatMap MerkleNode.files := by
    intro newHash newMask
    unfold Step.files
    rw [if_neg nofun, MerkleNode.files_directory]
  have memFiles : ∀ file, file ∈ (arrange (kept ++ created.map fun child => (child, some (.all 0))) mask).1.flatMap
      MerkleNode.files ↔ (∃ entry ∈ kept, file ∈ entry.1.files) ∨ file ∈ created.flatMap MerkleNode.files := by
    intro file
    rw [files.mem_iff, mem_append, mem_flatMap]
  constructor
  · exact inOthers
  · exact fun _ => rfl
  · rcases walked.changed with ⟨gone, made, changed⟩
    rcases creates.recorded with ⟨createdMade, recorded, createdFiles⟩
    have changedCreated : Changed env fresh paths v w [] (created.flatMap MerkleNode.files) [] createdMade := by
      refine ⟨⟨[], List.Perm.nil, createdFiles⟩, recorded, nofun, ?_⟩
      intro read isRead
      have member := createdFiles.mem_iff.mpr (List.mem_map_of_mem isRead)
      exact ⟨(creates.files _ member).1, inPathsOfRemaining _ (creates.files _ member).2⟩
    have both := (changed.mono subset).append changedCreated
    rw [append_nil] at both
    rcases both.files with ⟨unchanged, beforeFiles, afterFiles⟩
    rw [stepFiles, MerkleNode.files_directory]
    exact ⟨_, _, ⟨unchanged, beforeFiles, files.trans afterFiles⟩, both.recorded, both.gone, both.made⟩
  · intro _
    cases shaped with
    | directory _ _ _ located childrenShaped distinct =>
      refine .directory _ _ _ ?_ ?_ (arranged_distinct childrenShaped distinct walked creates)
      · intro child member
        rcases mem_arranged.mp member with ⟨childMask, isKept⟩ | isCreated
        · have isKey := walked.keys.subset (List.mem_map_of_mem isKept)
          rcases List.mem_map.mp isKey with ⟨old, isOld, same⟩
          have samePath : old.absolutePath = child.absolutePath := congrArg Prod.snd same
          rw [← samePath]
          exact located old isOld
        · exact creates.located child isCreated
      · intro child member
        rcases mem_arranged.mp member with ⟨childMask, isKept⟩ | isCreated
        · exact walked.shaped _ isKept
        · exact creates.shaped child isCreated
  · intro _ right
    refine .directory _ _ _ ?_ (arrange_sorted _ mask) rfl
    intro child member
    rcases mem_arranged.mp member with ⟨childMask, isKept⟩ | isCreated
    · cases right with
      | file _ content reads =>
        rcases reads.nodeId with ⟨size, time, isFile⟩
        cases isFile
      | directory _ _ _ childrenRight => exact walked.right childrenRight _ isKept
    · exact creates.right child isCreated
  · apply arrange_validFor _ _ _ start
    intro child member childMask isMask
    rcases List.mem_append.mp member with isKept | isCreated
    · exact walked.mask child isKept childMask isMask
    · rcases List.mem_map.mp isCreated with ⟨node, isNode, rfl⟩
      rw [← Option.some_inj.mp isMask]
      exact .all _ _
  · nofun
  · rw [stepFiles]
    intro clear file member inPaths
    rcases (memFiles file).mp member with ⟨entry, isKept, inEntry⟩ | isCreated
    · have distinct := clear.shaped.nodup_paths
      rw [MerkleNode.files_directory] at distinct
      have isOld : file.absolutePath ∈ under ∨ fresh file := by
        rcases walked.changed with ⟨gone, made, changed⟩
        rcases changed.old_or_fresh (List.mem_flatMap.mpr ⟨entry, isKept, inEntry⟩) with old | new
        · rw [← MerkleNode.files_directory hash children path] at old
          exact .inl ((inUnder _).mpr ⟨inPaths, (below_of_mem_files clear.shaped old).1⟩)
        · exact .inr new.1
      rcases isOld with isUnder | isFresh
      · exact walked.updated (fun child => clear.of_mem) clear.separate distinct entry isKept file inEntry isUnder
      · exact isFresh
    · exact (creates.files file isCreated).1
  · rw [stepFiles]
    intro clear file isReady inPaths takes apart
    rw [memFiles]
    have isUnder : file.absolutePath ∈ under := (inUnder _).mpr ⟨inPaths, takes⟩
    by_cases taken : ∃ child ∈ children, child.Takes file.absolutePath
    · rw [MerkleNode.files_directory] at apart
      exact .inl (walked.complete (fun child => clear.of_mem) file isReady isUnder taken apart)
    · have inRemaining : file.absolutePath ∈ remaining :=
        (walked.remaining _).mpr ⟨isUnder, fun child isChild childTakes => taken ⟨child, isChild, childTakes⟩⟩
      have below : Below path file.absolutePath := by
        refine ⟨takes, ?_⟩
        intro same
        rcases exists_mem_files clear.populated with ⟨other, isOther⟩
        have otherBelow := below_of_mem_files clear.shaped isOther
        rw [← same] at otherBelow
        exact apart other isOther otherBelow
      exact .inr (creates.complete file isReady inRemaining below)
  · intro _ clear
    refine .directory _ _ _ ?_ ?_
    · by_cases empty : (arrange (kept ++ created.map fun child => (child, some (.all 0))) mask).1 = []
      · have noneKept : kept = [] := by
          apply List.eq_nil_iff_forall_not_mem.mpr
          intro entry isKept
          have member := (@mem_arranged _ _ _ mask _ created _).mpr (.inl ⟨entry.2, isKept⟩)
          rw [empty] at member
          cases member
        rcases lawful.creates remaining (stays noneKept) with ⟨keep, other, inRemaining⟩
        rcases (walked.remaining other).mp inRemaining with ⟨isUnder, untaken⟩
        rcases exists_mem_files clear.populated with ⟨file, isFile⟩
        refine .inr ⟨keep, prefix_refl path, ⟨file, isFile, below_of_mem_files clear.shaped isFile⟩, other,
          subset other isUnder, ((inUnder other).mp isUnder).2, ?_⟩
        intro own isOwn same
        rw [MerkleNode.files_directory, mem_flatMap] at isOwn
        rcases isOwn with ⟨child, isChild, inChild⟩
        have takes := (clear.of_mem isChild).shaped.takes_of_mem_files inChild
        rw [same] at takes
        exact untaken child isChild takes
      · exact .inl empty
    · intro child member
      rcases mem_arranged.mp member with ⟨childMask, isKept⟩ | isCreated
      · rcases walked.populated (fun child => clear.of_mem) _ isKept with ⟨old, isOld, populated⟩
        exact populated.mono (Excused.of_child clear isOld subset)
      · exact (creates.populated child isCreated).mono fun _ => False.elim

end Directory

section Run

theorem updateChildren_cons (child : MerkleNode H T) (children : List (MerkleNode H T)) (i : ℕ) :
    updateChildren env updater i paths u (child :: children) =
      let step := updateFiles env updater paths (.all i) u child
      let rest := if step.paths.isEmpty then (children.map fun other => ⟨.noChange, other, .all 0⟩, step.paths, step.updates)
        else updateChildren env updater (i + 1) step.paths step.updates children
      (⟨step.result, step.node, step.mask⟩ :: rest.1, rest.2.1, rest.2.2) := by
  rw [updateChildren]
  dsimp only
  split <;> rfl

omit [LinearOrder H] in
theorem keepVisited_cons (visit : Visit H T) (visits : List (Visit H T)) :
    keepVisited (visit :: visits) = keepVisited [visit] ++ keepVisited visits := by
  unfold keepVisited
  rw [← filterMap_append]
  rfl

theorem updateFiles_walked (lawful : Lawful env updater fresh ready keeps) (node : MerkleNode H T) :
    ∀ (i : ℕ) (paths : HashSet Path) (u : LeafToFragmentMetadataUpdates H), node.Shaped →
      (∀ path ∈ paths, u.toRemove.get? path = none) →
      Walked env fresh ready keeps paths u node (updateFiles env updater paths (.all i) u node) := by
  refine MerkleNode.rec
    (motive_1 := fun node => ∀ (i : ℕ) (paths : HashSet Path) (u : LeafToFragmentMetadataUpdates H), node.Shaped →
      (∀ path ∈ paths, u.toRemove.get? path = none) →
      Walked env fresh ready keeps paths u node (updateFiles env updater paths (.all i) u node))
    (motive_2 := fun children => ∀ (i : ℕ) (paths : HashSet Path) (u : LeafToFragmentMetadataUpdates H),
      (∀ child ∈ children, child.Shaped) → (∀ path ∈ paths, u.toRemove.get? path = none) →
      ChildrenWalked env fresh ready keeps paths u children (keepVisited (updateChildren env updater i paths u children).1)
        (updateChildren env updater i paths u children).2.1 (updateChildren env updater i paths u children).2.2)
    ?_ ?_ ?_ node
  · intro hash children nodeId ih i paths u shaped missing
    cases shaped with
    | file _ _ path size time contents =>
      rw [updateFiles]
      dsimp only
      by_cases inPaths : path ∈ paths
      · rw [if_pos inPaths]
        exact Walked.file lawful rfl inPaths
          (missing path inPaths) i
      · rw [if_neg inPaths]
        apply Walked.unchanged (.all i _) (.file _ _ _ _ _ _)
        intro other member takes
        have same : path = other := takes
        rw [same] at inPaths
        exact inPaths member
    | directory _ _ path located childrenShaped distinct =>
      have shaped := MerkleNode.Shaped.directory hash children path located childrenShaped distinct
      have inUnder : ∀ other, other ∈ paths.filter (·.startsWith path) ↔ other ∈ paths ∧ path <+: other := by
        intro other
        rw [HashSet.mem_filter, Path.startsWith_iff]
      have inOthers : ∀ other, other ∈ (paths.filter fun other => !other.startsWith path) ↔
          other ∈ paths ∧ ¬path <+: other := by
        intro other
        rw [HashSet.mem_filter, Bool.not_eq_true', ← Bool.not_eq_true, Path.startsWith_iff]
      have walked := ih 0 (paths.filter (·.startsWith path)) u childrenShaped
        fun other member => missing other ((inUnder other).mp member).1
      rw [updateFiles]
      dsimp only
      by_cases nothing : (paths.filter (·.startsWith path)).isEmpty = true
      · rw [if_pos nothing]
        apply Walked.unchanged (.all i _) shaped
        intro other member takes
        exact HashSet.isEmpty_iff.mp nothing other ((inUnder other).mpr ⟨member, takes⟩)
      · rw [if_neg nothing]
        rcases visited : updateChildren env updater 0 (paths.filter (·.startsWith path)) u children with
          ⟨visits, remaining, v⟩
        rw [visited] at walked
        dsimp only at walked ⊢
        by_cases empties : ((keepVisited visits).isEmpty && !updater.creates remaining) = true
        · rw [if_pos empties]
          rw [Bool.and_eq_true, List.isEmpty_iff, Bool.not_eq_true'] at empties
          rw [empties.1] at walked
          exact Walked.deleted lawful inUnder walked empties.2 _ inOthers (NodeMask.ValidFor.all i)
        · rw [if_neg empties]
          apply Walked.directory lawful shaped inUnder walked ?_ _ inOthers (NodeMask.ValidFor.all i)
          intro noneKept
          rw [noneKept] at empties
          simpa using empties
  · intro i paths u _ _
    exact ChildrenWalked.unchanged nofun nofun
  · intro child children childWalked childrenWalked i paths u shaped missing
    rw [forall_mem_cons] at shaped
    have head := childWalked i paths u shaped.1 missing
    rw [updateChildren_cons]
    dsimp only
    generalize updateFiles env updater paths (.all i) u child = step at head ⊢
    rw [keepVisited_cons]
    apply ChildrenWalked.cons (List.forall_mem_cons.mpr shaped) head
    by_cases nothing : step.paths.isEmpty = true
    · rw [if_pos nothing, keepVisited_unchanged]
      exact ChildrenWalked.unchanged shaped.2 fun path member => absurd member (HashSet.isEmpty_iff.mp nothing path)
    · rw [if_neg nothing]
      apply childrenWalked _ _ _ shaped.2
      intro path member
      rcases head.changed with ⟨gone, made, changed⟩
      rcases (head.left path).mp member with ⟨inPaths, untaken⟩
      apply changed.toRemove_eq_none (missing path inPaths)
      intro file inChild same
      have takes := shaped.1.takes_of_mem_files inChild
      rw [same] at takes
      exact untaken takes

end Run

end Warp.Merkle
