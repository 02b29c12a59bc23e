import Warp.Merkle.Mapping

namespace Warp.Merkle

open List

variable {H T : Type}

namespace MerkleNode

mutual

def hashes : MerkleNode H T → List H
  | .mk hash children _ => hash :: childrenHashes children

def childrenHashes : List (MerkleNode H T) → List H
  | [] => []
  | child :: children => child.hashes ++ childrenHashes children

end

theorem childrenHashes_eq (children : List (MerkleNode H T)) : childrenHashes children = children.flatMap hashes := by
  induction children with
  | nil => rfl
  | cons child children ih => rw [childrenHashes, ih, flatMap_cons]

variable {node child : MerkleNode H T} {hash : H}

theorem hash_mem_hashes (node : MerkleNode H T) : node.hash ∈ node.hashes := by
  cases node
  rw [hashes]
  exact mem_cons_self

theorem mem_hashes_of_child (isChild : child ∈ node.children) (member : hash ∈ child.hashes) : hash ∈ node.hashes := by
  cases node
  rw [hashes, childrenHashes_eq]
  exact mem_cons_of_mem _ (List.mem_flatMap.mpr ⟨child, isChild, member⟩)

end MerkleNode

namespace NodeMask

/-- The mask marks each child once, and leaves out those whose hashes are all known. -/
inductive Marks (known : H → Prop) : NodeMask → MerkleNode H T → Prop
  | all (index : ℕ) (node : MerkleNode H T) : Marks known (.all index) node
  | specificChildren (index : ℕ) (masks : List NodeMask) (node : MerkleNode H T)
    (inside : ∀ mask ∈ masks, mask.index < node.children.length)
    (distinct : (masks.map NodeMask.index).Nodup)
    (marked : ∀ mask ∈ masks, ∀ child, node.children[mask.index]? = some child → Marks known mask child)
    (rest : ∀ i child, node.children[i]? = some child → i ∉ masks.map NodeMask.index → ∀ hash ∈ child.hashes, known hash) :
    Marks known (.specificChildren index masks) node

variable {known known' : H → Prop} {mask : NodeMask} {node : MerkleNode H T}

theorem Marks.mono (subset : ∀ hash, known hash → known' hash) (marks : mask.Marks known node) : mask.Marks known' node := by
  induction marks with
  | all index node => exact .all index node
  | specificChildren index masks node inside distinct _ rest ih =>
    exact .specificChildren index masks node inside distinct ih fun i child isChild unmarked hash member =>
      subset hash (rest i child isChild unmarked hash member)

theorem Marks.setIndex (marks : mask.Marks known node) (index : ℕ) : (mask.setIndex index).Marks known node := by
  cases marks with
  | all => exact .all index node
  | specificChildren _ masks _ inside distinct marked rest =>
    exact .specificChildren index masks node inside distinct marked rest

theorem foldl_addChild_specific (index : ℕ) (first masks : List NodeMask) :
    masks.foldl addChild (.specificChildren index first) = .specificChildren index (first ++ masks) := by
  induction masks generalizing first with
  | nil => rw [foldl_nil, append_nil]
  | cons mask masks ih =>
    rw [foldl_cons, addChild, ih, append_assoc]
    rfl

theorem foldl_addChild_all (index : ℕ) (masks : List NodeMask) :
    masks.foldl addChild (.all index) = if masks = [] then .all index else .specificChildren index masks := by
  cases masks with
  | nil => rfl
  | cons mask masks => exact foldl_addChild_specific index [mask] masks

end NodeMask

section Arrange

variable [LinearOrder H] {children : List (MerkleNode H T × Option NodeMask)} {known : H → Prop}

def arrangedMasks (children : List (MerkleNode H T × Option NodeMask)) : List NodeMask :=
  (children.insertionSort byHash).zipIdx.filterMap fun entry => entry.1.2.map fun mask => mask.setIndex entry.2

theorem arrange_mask (index : ℕ) :
    (arrange children (.all index)).2 =
      if arrangedMasks children = [] then .all index else .specificChildren index (arrangedMasks children) := by
  rw [← NodeMask.foldl_addChild_all, arrangedMasks, foldl_filterMap]
  unfold arrange
  dsimp only
  congr 1
  funext nodeMask entry
  cases entry.1.2 <;> rfl

theorem mem_arrangedMasks {mask : NodeMask} :
    mask ∈ arrangedMasks children ↔ ∃ i child, ∃ childMask : NodeMask,
      (children.insertionSort byHash)[i]? = some (child, some childMask) ∧ mask = childMask.setIndex i := by
  unfold arrangedMasks
  rw [mem_filterMap]
  constructor
  · rintro ⟨⟨⟨child, childMask⟩, i⟩, member, isMask⟩
    obtain ⟨childMask, rfl, rfl⟩ := Option.map_eq_some_iff.mp isMask
    exact ⟨i, child, childMask, List.mem_zipIdx_iff_getElem?.mp member, rfl⟩
  · rintro ⟨i, child, childMask, isChild, rfl⟩
    exact ⟨((child, some childMask), i), List.mem_zipIdx_iff_getElem?.mpr isChild, rfl⟩

omit [LinearOrder H] in
theorem masks_sublist (entries : List ((MerkleNode H T × Option NodeMask) × ℕ)) :
    ((entries.filterMap fun entry => entry.1.2.map fun mask => mask.setIndex entry.2).map NodeMask.index).Sublist
      (entries.map Prod.snd) := by
  induction entries with
  | nil => exact List.Sublist.slnil
  | cons entry entries ih =>
    obtain ⟨⟨child, _ | mask⟩, i⟩ := entry
    · exact ih.cons i
    · simp only [filterMap_cons, Option.map_some, map_cons, NodeMask.index_setIndex]
      exact ih.cons_cons i

theorem arrangedMasks_distinct : ((arrangedMasks children).map NodeMask.index).Nodup := by
  apply (masks_sublist _).nodup
  rw [zipIdx_map_snd]
  exact nodup_range'

def Accounted (known : H → Prop) (entry : MerkleNode H T × Option NodeMask) : Prop :=
  match entry.2 with
  | some mask => mask.Marks known entry.1
  | none => ∀ hash ∈ entry.1.hashes, known hash

theorem arrange_marks (accounted : ∀ entry ∈ children, Accounted known entry) (index : ℕ) (hash : H) (nodeId : NodeId T) :
    (arrange children (.all index)).2.Marks known (.mk hash (arrange children (.all index)).1 nodeId) := by
  rw [arrange_mask]
  by_cases unmarked : arrangedMasks children = []
  · rw [if_pos unmarked]
    exact .all index _
  rw [if_neg unmarked]
  have isChild : ∀ i : ℕ, (arrange children (.all index)).1[i]? = ((children.insertionSort byHash)[i]?).map Prod.fst :=
    fun i => List.getElem?_map ..
  have kept : ∀ i entry, (children.insertionSort byHash)[i]? = some entry → Accounted known entry := fun i entry found =>
    accounted entry ((mem_insertionSort byHash).mp (mem_of_getElem? found))
  refine .specificChildren index _ _ ?_ arrangedMasks_distinct ?_ ?_
  · intro mask member
    obtain ⟨i, child, childMask, found, rfl⟩ := mem_arrangedMasks.mp member
    rw [NodeMask.index_setIndex]
    apply (List.getElem?_eq_some_iff.mp _).1
    · exact child
    · rw [MerkleNode.children, isChild, found]
      rfl
  · intro mask member other isOther
    obtain ⟨i, child, childMask, found, rfl⟩ := mem_arrangedMasks.mp member
    rw [NodeMask.index_setIndex, MerkleNode.children, isChild, found] at isOther
    rw [← Option.some.inj isOther]
    exact (show childMask.Marks known child from kept i _ found).setIndex i
  · intro i child isThere notMarked
    rw [MerkleNode.children, isChild] at isThere
    obtain ⟨⟨_, childMask⟩, found, rfl⟩ := Option.map_eq_some_iff.mp isThere
    cases childMask with
    | none => exact kept i _ found
    | some childMask =>
      refine absurd (List.mem_map.mpr ⟨_, mem_arrangedMasks.mpr ⟨i, _, childMask, found, rfl⟩, ?_⟩) notMarked
      rw [NodeMask.index_setIndex]

end Arrange

section Walk

variable [LinearOrder H] {env : Env H} {updater : Updater H T} {known : H → Prop}

def Honest (updater : Updater H T) : Prop :=
  ∀ node path updates, (updater.onFile node path updates).1 = .noChange → (updater.onFile node path updates).2.1 = node

omit [LinearOrder H] in
theorem remover_honest : Honest (remover : Updater H T) := by
  intro node path updates unchanged
  cases unchanged

theorem upserter_honest (fs : FileSystem T) : Honest (upserter env fs) := by
  intro node path updates unchanged
  unfold upserter at unchanged
  dsimp only at unchanged
  split at unchanged
  · cases unchanged
  · split at unchanged <;> cases unchanged

structure Told (child : MerkleNode H T) (result : UpdateFileResult) (node : MerkleNode H T) (mask : NodeMask) : Prop where
  unchanged : result = .noChange → node = child
  marks : mask.Marks (· ∈ child.hashes) node

omit [LinearOrder H] in
theorem Told.refl (child : MerkleNode H T) (index : ℕ) : Told child .noChange child (.all index) :=
  ⟨fun _ => rfl, .all index child⟩

omit [LinearOrder H] in
theorem Accounted.mono {known' : H → Prop} {entry : MerkleNode H T × Option NodeMask} (accounted : Accounted known entry)
    (subset : ∀ hash, known hash → known' hash) : Accounted known' entry := by
  obtain ⟨node, _ | mask⟩ := entry
  · exact fun hash member => subset hash (accounted hash member)
  · exact NodeMask.Marks.mono subset accounted

omit [LinearOrder H] in
theorem keepVisited_accounted {children : List (MerkleNode H T)} {visits : List (Visit H T)}
    (told : List.Forall₂ (fun child (visit : Visit H T) => Told child visit.result visit.node visit.mask) children visits) :
    ∀ entry ∈ keepVisited visits, Accounted (· ∈ MerkleNode.childrenHashes children) entry := by
  induction told with
  | nil => nofun
  | @cons child visit children visits told _ ih =>
    rw [keepVisited_cons, forall_mem_append]
    refine ⟨fun entry member => ?_, fun entry member => (ih entry member).mono fun hash => mem_append_right _⟩
    obtain ⟨result, node, mask⟩ := visit
    cases result with
    | deleted => cases member
    | updated =>
      rw [List.mem_singleton.mp member]
      exact told.marks.mono fun hash => mem_append_left _
    | noChange =>
      rw [List.mem_singleton.mp member]
      intro hash inNode
      rw [told.unchanged rfl] at inNode
      exact mem_append_left _ inNode

theorem updateFiles_told (honest : Honest updater) (node : MerkleNode H T) :
    ∀ (index : ℕ) (paths : HashSet Path) (updates : LeafToFragmentMetadataUpdates H),
      Told node (updateFiles env updater paths (.all index) updates node).result
        (updateFiles env updater paths (.all index) updates node).node
        (updateFiles env updater paths (.all index) updates node).mask := by
  refine MerkleNode.rec
    (motive_1 := fun node => ∀ (index : ℕ) (paths : HashSet Path) (updates : LeafToFragmentMetadataUpdates H),
      Told node (updateFiles env updater paths (.all index) updates node).result
        (updateFiles env updater paths (.all index) updates node).node
        (updateFiles env updater paths (.all index) updates node).mask)
    (motive_2 := fun children => ∀ (i : ℕ) (paths : HashSet Path) (updates : LeafToFragmentMetadataUpdates H),
      List.Forall₂ (fun child (visit : Visit H T) => Told child visit.result visit.node visit.mask) children
        (updateChildren env updater i paths updates children).1)
    ?_ ?_ ?_ node
  · intro hash children nodeId told index paths updates
    cases nodeId with
    | file path size time contents =>
      rw [updateFiles]
      dsimp only
      split
      · exact ⟨honest _ path updates, .all index _⟩
      · exact Told.refl _ index
    | directory path =>
      have told := told 0 (paths.filter (·.startsWith path)) updates
      rw [updateFiles]
      dsimp only
      split
      · exact Told.refl _ index
      · rcases visited : updateChildren env updater 0 (paths.filter (·.startsWith path)) updates children with
          ⟨visits, remaining, v⟩
        rw [visited] at told
        dsimp only at told ⊢
        split
        · exact ⟨by simp, .all index _⟩
        · refine ⟨by simp, arrange_marks (List.forall_mem_append.mpr ⟨fun entry member => ?_, fun entry member => ?_⟩) index _ _⟩
          · exact (keepVisited_accounted told entry member).mono fun hash => mem_cons_of_mem _
          · obtain ⟨child, -, rfl⟩ := List.mem_map.mp member
            exact .all 0 child
    | fragment path range =>
      rw [updateFiles]
      exact Told.refl _ index
  · intro i paths updates
    exact .nil
  · intro child children childTold childrenTold i paths updates
    rw [updateChildren_cons]
    refine .cons (childTold i paths updates) ?_
    split
    · exact List.forall₂_map_right_iff.mpr (List.forall₂_same.mpr fun other _ => Told.refl other 0)
    · exact childrenTold _ _ _

end Walk

end Warp.Merkle
