import Warp.Merkle.Marks

namespace Warp.Merkle

open List

variable {H T : Type}

namespace MerkleNode

/-- The node at a position, which gives the indices of the children from the root on. -/
def nodeAt : MerkleNode H T → List ℕ → Option (MerkleNode H T)
  | self, [] => some self
  | self, i :: position => (self.children[i]?).bind fun child => child.nodeAt position

theorem nodeAt_cons_eq_some {node found : MerkleNode H T} {i : ℕ} {position : List ℕ} :
    node.nodeAt (i :: position) = some found ↔ ∃ child, node.children[i]? = some child ∧ child.nodeAt position = some found :=
  Option.bind_eq_some_iff

theorem hash_mem_of_nodeAt {node found : MerkleNode H T} {position : List ℕ} (isThere : node.nodeAt position = some found) :
    found.hash ∈ node.hashes := by
  induction position generalizing node with
  | nil =>
    rw [← Option.some.inj isThere]
    exact hash_mem_hashes node
  | cons i position ih =>
    obtain ⟨child, isChild, below⟩ := nodeAt_cons_eq_some.mp isThere
    exact mem_hashes_of_child (mem_of_getElem? isChild) (ih below)

end MerkleNode

section Visits

abbrev Queue (H T : Type) := List (List ℕ × MerkleNode H T × NodeMask)

def locatedChildren (position : List ℕ) (node : MerkleNode H T) : NodeMask → Queue H T
  | .all _ => node.children.zipIdx.map fun entry => (position ++ [entry.2], entry.1, .all entry.2)
  | .specificChildren _ masks =>
    masks.filterMap fun mask => (node.children[mask.index]?).map fun child => (position ++ [mask.index], child, mask)

inductive Visits : Queue H T → List (List ℕ × MerkleNode H T) → Prop
  | done : Visits [] []
  | visit {position : List ℕ} {node : MerkleNode H T} {mask : NodeMask} {queue : Queue H T}
    {visited : List (List ℕ × MerkleNode H T)} (rest : Visits (queue ++ locatedChildren position node mask) visited) :
    Visits ((position, node, mask) :: queue) ((position, node) :: visited)

variable {known : H → Prop} {position : List ℕ} {node : MerkleNode H T} {mask : NodeMask} {queue : Queue H T}
  {visited : List (List ℕ × MerkleNode H T)}

theorem locatedChildren_located : ∀ entry ∈ locatedChildren position node mask,
    ∃ i, entry.1 = position ++ [i] ∧ node.children[i]? = some entry.2.1 := by
  intro entry member
  cases mask with
  | all index =>
    obtain ⟨⟨child, i⟩, isChild, rfl⟩ := List.mem_map.mp member
    exact ⟨i, rfl, List.mem_zipIdx_iff_getElem?.mp isChild⟩
  | specificChildren index masks =>
    obtain ⟨mask, -, found⟩ := List.mem_filterMap.mp member
    obtain ⟨child, isChild, rfl⟩ := Option.map_eq_some_iff.mp found
    exact ⟨mask.index, rfl, isChild⟩

theorem locatedChildren_marks (marks : mask.Marks known node) :
    ∀ entry ∈ locatedChildren position node mask, entry.2.2.Marks known entry.2.1 := by
  intro entry member
  cases marks with
  | all index =>
    obtain ⟨child, -, rfl⟩ := List.mem_map.mp member
    exact .all _ _
  | specificChildren index masks _ inside distinct marked rest =>
    obtain ⟨mask, isMask, found⟩ := List.mem_filterMap.mp member
    obtain ⟨child, isChild, rfl⟩ := Option.map_eq_some_iff.mp found
    exact marked mask isMask child isChild

theorem locatedChildren_complete (marks : mask.Marks known node) {i : ℕ} {child : MerkleNode H T}
    (isChild : node.children[i]? = some child) :
    (∃ childMask, (position ++ [i], child, childMask) ∈ locatedChildren position node mask) ∨ ∀ hash ∈ child.hashes, known hash := by
  cases marks with
  | all index =>
    exact .inl ⟨.all i, List.mem_map.mpr ⟨(child, i), List.mem_zipIdx_iff_getElem?.mpr isChild, rfl⟩⟩
  | specificChildren index masks _ inside distinct marked rest =>
    by_cases isMarked : i ∈ masks.map NodeMask.index
    · obtain ⟨mask, isMask, rfl⟩ := List.mem_map.mp isMarked
      exact .inl ⟨mask, List.mem_filterMap.mpr ⟨mask, isMask, by rw [isChild]; rfl⟩⟩
    · exact .inr (rest i child isChild isMarked)

theorem locatedChildren_cons {index : ℕ} {masks : List NodeMask} {child : MerkleNode H T}
    (isChild : node.children[mask.index]? = some child) :
    locatedChildren position node (.specificChildren index (mask :: masks)) =
      (position ++ [mask.index], child, mask) :: locatedChildren position node (.specificChildren index masks) := by
  simp only [locatedChildren, filterMap_cons, isChild, Option.map_some]

theorem locatedChildren_positions (marks : mask.Marks known node) :
    ∃ indices : List ℕ, indices.Nodup ∧
      (locatedChildren position node mask).map Prod.fst = indices.map fun i => position ++ [i] := by
  cases marks with
  | all index =>
    refine ⟨List.range' 0 node.children.length, nodup_range', ?_⟩
    rw [← zipIdx_map_snd 0 node.children, List.map_map, locatedChildren, List.map_map]
    rfl
  | specificChildren index masks _ inside distinct marked rest =>
    refine ⟨masks.map NodeMask.index, distinct, ?_⟩
    clear distinct marked rest
    induction masks with
    | nil => rfl
    | cons mask masks ih =>
      rw [forall_mem_cons] at inside
      rw [locatedChildren_cons (List.getElem?_eq_getElem inside.1), map_cons, ih inside.2]
      rfl

theorem maskedChildren_eq (marks : mask.Marks known node) :
    maskedChildren node mask = .ok ((locatedChildren position node mask).map Prod.snd) := by
  cases marks with
  | all index =>
    rw [maskedChildren, locatedChildren, List.map_map]
    rfl
  | specificChildren index masks _ inside distinct marked rest =>
    clear distinct marked rest
    rw [maskedChildren]
    induction masks with
    | nil => rfl
    | cons mask masks ih =>
      rw [forall_mem_cons] at inside
      have marked := List.getElem?_eq_getElem inside.1
      rw [mapM_cons, maskedChild_eq marked, ih inside.2, locatedChildren_cons marked]
      rfl

theorem nodesFromQueue_cons {added : List (MerkleNode H T × NodeMask)} (queue : List (MerkleNode H T × NodeMask))
    (result : List (MerkleNode H T)) (marked : maskedChildren node mask = .ok added) :
    nodesFromQueue ((node, mask) :: queue) result = nodesFromQueue (queue ++ added) (result ++ [node]) := by
  rw [nodesFromQueue]
  split
  · rename_i error failed
    rw [marked] at failed
    cases failed
  · rename_i others isOther
    rw [marked] at isOther
    injection isOther with same
    rw [same]

/-- Resolving a mask never fails where it marks the node. -/
theorem nodesFromQueue_visits (queue : Queue H T) (marks : ∀ entry ∈ queue, entry.2.2.Marks known entry.2.1)
    (result : List (MerkleNode H T)) :
    ∃ visited, Visits queue visited ∧
      nodesFromQueue (queue.map Prod.snd) result = .ok (result ++ visited.map Prod.snd).reverse := by
  generalize isQueue : queue.map Prod.snd = unlocated
  induction unlocated, result using nodesFromQueue.induct generalizing queue with
  | case1 result =>
    rw [List.map_eq_nil_iff.mp isQueue, nodesFromQueue]
    exact ⟨[], .done, by rw [map_nil, append_nil]⟩
  | case2 result currentNode path unlocated error failed =>
    obtain ⟨⟨position, node, mask⟩, queue, rfl, same, isQueue⟩ := List.map_eq_cons_iff.mp isQueue
    cases same
    rw [@maskedChildren_eq _ _ known position _ _ (marks _ mem_cons_self)] at failed
    cases failed
  | case3 result currentNode path unlocated added marked ih =>
    obtain ⟨⟨position, node, mask⟩, queue, rfl, same, isRest⟩ := List.map_eq_cons_iff.mp isQueue
    cases same
    obtain ⟨here, later⟩ := List.forall_mem_cons.mp marks
    have located := @maskedChildren_eq _ _ known position _ _ here
    rw [marked] at located
    injection located with located
    obtain ⟨visited, visits, isOk⟩ := ih (queue ++ locatedChildren position currentNode path)
      (List.forall_mem_append.mpr ⟨later, locatedChildren_marks here⟩) (by rw [map_append, isRest, located])
    refine ⟨(position, currentNode) :: visited, .visit visits, ?_⟩
    rw [nodesFromQueue_cons unlocated result marked, isOk, map_cons, append_assoc]
    rfl

theorem Visits.located (visits : Visits queue visited) : ∀ visit ∈ visited,
    ∃ entry ∈ queue, ∃ rest, visit.1 = entry.1 ++ rest ∧ entry.2.1.nodeAt rest = some visit.2 := by
  induction visits with
  | done => nofun
  | @visit position node mask queue visited _ ih =>
    rw [forall_mem_cons]
    refine ⟨⟨_, mem_cons_self, [], (append_nil _).symm, rfl⟩, fun visit member => ?_⟩
    obtain ⟨entry, isEntry, rest, isPosition, found⟩ := ih visit member
    rcases List.mem_append.mp isEntry with inQueue | isChild
    · exact ⟨entry, mem_cons_of_mem _ inQueue, rest, isPosition, found⟩
    · obtain ⟨i, isHere, child⟩ := locatedChildren_located entry isChild
      refine ⟨_, mem_cons_self, i :: rest, ?_, MerkleNode.nodeAt_cons_eq_some.mpr ⟨_, child, found⟩⟩
      rw [isPosition, isHere, append_assoc]
      rfl

def Apart (first second : List ℕ) : Prop := ¬ first <+: second ∧ ¬ second <+: first

theorem Apart.symm {first second : List ℕ} (apart : Apart first second) : Apart second first := ⟨apart.2, apart.1⟩

theorem Apart.below {first second : List ℕ} (apart : Apart first second) (i : ℕ) : Apart first (second ++ [i]) := by
  constructor
  · intro above
    rcases List.prefix_concat_iff.mp above with same | above
    · exact apart.2 (same ▸ prefix_append second [i])
    · exact apart.1 above
  · exact fun above => apart.2 ((prefix_append second [i]).trans above)

theorem apart_siblings {i j : ℕ} (differ : i ≠ j) : Apart (position ++ [i]) (position ++ [j]) := by
  have prefixes : ∀ {i j : ℕ}, i ≠ j → ¬ position ++ [i] <+: position ++ [j] := by
    intro i j differ above
    exact differ (by simpa using (prefix_append_right_inj position).mp above)
  exact ⟨prefixes differ, prefixes differ.symm⟩

theorem Visits.nodup (visits : Visits queue visited) (marks : ∀ entry ∈ queue, entry.2.2.Marks known entry.2.1)
    (apart : (queue.map Prod.fst).Pairwise Apart) : (visited.map Prod.fst).Nodup := by
  induction visits with
  | done => exact nodup_nil
  | @visit position node mask queue visited rest ih =>
    obtain ⟨here, later⟩ := List.forall_mem_cons.mp marks
    obtain ⟨fromHere, apart⟩ := List.pairwise_cons.mp apart
    obtain ⟨indices, distinct, positions⟩ := @locatedChildren_positions _ _ known position node mask here
    rw [map_cons, nodup_cons]
    constructor
    · intro member
      obtain ⟨visit, isVisit, same⟩ := List.mem_map.mp member
      obtain ⟨entry, isEntry, below, isPosition, -⟩ := rest.located visit isVisit
      rw [same] at isPosition
      rcases List.mem_append.mp isEntry with inQueue | isChild
      · exact (fromHere entry.1 (List.mem_map_of_mem inQueue)).2 ⟨below, isPosition.symm⟩
      · obtain ⟨i, isHere, -⟩ := locatedChildren_located entry isChild
        have lengths : position.length = (entry.1 ++ below).length := congrArg List.length isPosition
        rw [isHere, length_append, length_append, length_singleton] at lengths
        omega
    · apply ih (List.forall_mem_append.mpr ⟨later, locatedChildren_marks here⟩)
      rw [map_append, positions]
      refine List.pairwise_append.mpr ⟨apart, List.pairwise_map.mpr (distinct.imp apart_siblings), fun other inQueue child isChild => ?_⟩
      obtain ⟨i, -, rfl⟩ := List.mem_map.mp isChild
      exact (Apart.symm (fromHere other inQueue)).below i

theorem Visits.childrenFirst (visits : Visits queue visited) {i : ℕ} (member : position ++ [i] ∈ visited.map Prod.fst) :
    position ++ [i] ∈ queue.map Prod.fst ∨ [position, position ++ [i]].Sublist (visited.map Prod.fst) := by
  induction visits with
  | done => cases member
  | @visit here node mask queue visited _ ih =>
    rw [map_cons, mem_cons] at member
    rcases member with same | member
    · exact .inl (same ▸ mem_cons_self)
    · rcases ih member with inQueue | sublist
      · rw [map_append, mem_append] at inQueue
        rcases inQueue with inQueue | isChild
        · exact .inl (mem_cons_of_mem _ inQueue)
        · obtain ⟨entry, isEntry, same⟩ := List.mem_map.mp isChild
          obtain ⟨j, isHere, -⟩ := locatedChildren_located entry isEntry
          rw [same] at isHere
          rw [(append_inj_left' isHere rfl : position = here)] at member ⊢
          exact .inr ((List.singleton_sublist.mpr member).cons_cons here)
      · exact .inr (sublist.cons here)

theorem Visits.complete (visits : Visits queue visited) (marks : ∀ entry ∈ queue, entry.2.2.Marks known entry.2.1) :
    ∀ entry ∈ queue, ∀ rest found, entry.2.1.nodeAt rest = some found → ¬ known found.hash →
      entry.1 ++ rest ∈ visited.map Prod.fst := by
  induction visits with
  | done => nofun
  | @visit here node mask queue visited _ ih =>
    obtain ⟨marksHere, later⟩ := List.forall_mem_cons.mp marks
    have ih := ih (List.forall_mem_append.mpr ⟨later, locatedChildren_marks marksHere⟩)
    refine List.forall_mem_cons.mpr ⟨fun rest found isThere unknown => ?_, fun entry inQueue rest found isThere unknown => ?_⟩
    · cases rest with
      | nil =>
        rw [append_nil]
        exact mem_cons_self
      | cons i rest =>
        obtain ⟨child, isChild, below⟩ := MerkleNode.nodeAt_cons_eq_some.mp isThere
        rcases @locatedChildren_complete _ _ known here node mask marksHere i child isChild with ⟨childMask, isLocated⟩ | allKnown
        · have member := ih _ (mem_append_right _ isLocated) rest found below unknown
          rw [append_assoc] at member
          exact mem_cons_of_mem _ member
        · exact absurd (allKnown _ (MerkleNode.hash_mem_of_nodeAt below)) unknown
    · exact mem_cons_of_mem _ (ih entry (mem_append_left _ inQueue) rest found isThere unknown)

end Visits

section Updates

variable [LinearOrder H] {env : Env H} {updater : Updater H T}

/-- The nodes are those at the positions of the changed tree. Children come before their parents, and no position is left out where the
hash is not one of the tree before, nor one above it. -/
structure Reported (before after : MerkleNode H T) (nodes : List (MerkleNode H T)) (positions : List (List ℕ)) : Prop where
  located : List.Forall₂ (fun position node => after.nodeAt position = some node) positions nodes
  distinct : positions.Nodup
  childrenFirst : ∀ position i, position ++ [i] ∈ positions → [position ++ [i], position].Sublist positions
  complete : ∀ position node, after.nodeAt position = some node → node.hash ∉ before.hashes →
    ∀ ancestor, ancestor <+: position → ancestor ∈ positions

omit [LinearOrder H] in
theorem mem_of_prefix {positions : List (List ℕ)}
    (childrenFirst : ∀ position i, position ++ [i] ∈ positions → [position ++ [i], position].Sublist positions)
    {position ancestor : List ℕ} (member : position ∈ positions) (above : ancestor <+: position) : ancestor ∈ positions := by
  induction position using List.reverseRecOn with
  | nil => exact (List.prefix_nil.mp above) ▸ member
  | append_singleton position i ih =>
    rcases List.prefix_concat_iff.mp above with same | above
    · exact same ▸ member
    · have sublist := childrenFirst position i member
      exact ih (sublist.subset (mem_cons_of_mem _ mem_cons_self)) above

omit [LinearOrder H] in
theorem nodesFromMask_reported {before : MerkleNode H T} {tree : MerkleTree H T} {mask : NodeMask}
    (marks : mask.Marks (· ∈ before.hashes) tree.root) :
    ∃ nodes positions, tree.nodesFromMask mask = .ok nodes ∧ Reported before tree.root nodes positions := by
  have queued : ∀ entry ∈ [(([] : List ℕ), tree.root, mask)], entry.2.2.Marks (· ∈ before.hashes) entry.2.1 :=
    List.forall_mem_singleton.mpr marks
  obtain ⟨visited, visits, isOk⟩ := nodesFromQueue_visits _ queued []
  have childrenFirst : ∀ position i, position ++ [i] ∈ visited.reverse.map Prod.fst →
      [position ++ [i], position].Sublist (visited.reverse.map Prod.fst) := by
    intro position i member
    rw [map_reverse, mem_reverse] at member
    rcases visits.childrenFirst member with isRoot | sublist
    · have isEmpty : position ++ [i] = [] := List.mem_singleton.mp isRoot
      exact absurd isEmpty (by simp)
    · rw [map_reverse]
      exact sublist.reverse
  refine ⟨visited.reverse.map Prod.snd, visited.reverse.map Prod.fst, ?_, ?_, ?_, childrenFirst, ?_⟩
  · rw [map_reverse]
    exact isOk
  · rw [forall₂_map_left_iff, forall₂_map_right_iff, forall₂_same]
    intro visit member
    obtain ⟨entry, isRoot, rest, isPosition, found⟩ := visits.located visit (List.mem_reverse.mp member)
    rw [List.mem_singleton.mp isRoot] at isPosition found
    rw [isPosition]
    exact found
  · rw [map_reverse, nodup_reverse]
    exact visits.nodup queued (pairwise_singleton _ _)
  · intro position node isThere unknown ancestor above
    apply mem_of_prefix childrenFirst _ above
    rw [map_reverse, mem_reverse]
    exact visits.complete queued _ mem_cons_self position node isThere unknown

theorem finish_reported (honest : Honest updater) (tree : MerkleTree H T) (paths : HashSet Path) :
    ∃ result positions,
      (MerkleTree.finish (updateFiles env updater paths (.all 0) .empty tree.root)).2 = .ok result ∧
        Reported tree.root (MerkleTree.finish (updateFiles env updater paths (.all 0) .empty tree.root)).1.root result.nodeLens
          positions := by
  have told := @updateFiles_told H T _ env updater honest tree.root 0 paths .empty
  generalize updateFiles env updater paths (.all 0) .empty tree.root = step at told ⊢
  unfold MerkleTree.finish
  dsimp only
  by_cases unchanged : step.result = .noChange
  · rw [if_pos unchanged, told.unchanged unchanged]
    refine ⟨_, [[]], rfl, ?_, nodup_singleton _, ?_, ?_⟩
    · exact .cons rfl .nil
    · intro position i member
      exact absurd (List.mem_singleton.mp member) (by simp)
    · intro position node isThere unknown
      exact absurd (MerkleNode.hash_mem_of_nodeAt isThere) unknown
  · rw [if_neg unchanged]
    obtain ⟨nodes, positions, isOk, reported⟩ :=
      nodesFromMask_reported (show step.mask.Marks (· ∈ tree.root.hashes) (MerkleTree.mk step.node).root from told.marks)
    rw [isOk]
    exact ⟨_, positions, rfl, reported⟩

/-- An update reports every changed node. -/
theorem update_reported (env : Env H) (tree : MerkleTree H T) (update : Update T) :
    ∃ result positions, (tree.update env update).2 = .ok result ∧
      Reported tree.root (tree.update env update).1.root result.nodeLens positions := by
  cases update with
  | upsert fs paths => exact finish_reported (upserter_honest fs) tree paths
  | remove paths => exact finish_reported remover_honest tree paths

end Updates

end Warp.Merkle
