import Warp.Merkle.Creation

namespace Warp.Merkle

open List

variable {H T : Type}

namespace NodeMask

inductive ValidFor : NodeMask → MerkleNode H T → Prop
  | all (index : ℕ) (node : MerkleNode H T) : ValidFor (.all index) node
  | specificChildren (index : ℕ) (masks : List NodeMask) (node : MerkleNode H T)
    (inside : ∀ mask ∈ masks, mask.index < node.children.length)
    (valid : ∀ mask ∈ masks, ∀ child, node.children[mask.index]? = some child → ValidFor mask child) :
    ValidFor (.specificChildren index masks) node

variable {mask child : NodeMask} {node : MerkleNode H T}

@[simp] theorem index_setIndex (mask : NodeMask) (index : ℕ) : (mask.setIndex index).index = index := by
  cases mask <;> rfl

theorem ValidFor.setIndex (valid : mask.ValidFor node) (index : ℕ) : (mask.setIndex index).ValidFor node := by
  cases valid with
  | all => exact .all index node
  | specificChildren _ masks _ inside valid => exact .specificChildren index masks node inside valid

theorem ValidFor.addChild {childNode : MerkleNode H T} (valid : mask.ValidFor node)
    (marked : node.children[child.index]? = some childNode) (childValid : child.ValidFor childNode) :
    (mask.addChild child).ValidFor node := by
  have inside : child.index < node.children.length := (List.getElem?_eq_some_iff.mp marked).1
  have same : ∀ other, node.children[child.index]? = some other → child.ValidFor other := by
    intro other isOther
    rw [marked, Option.some_inj] at isOther
    rw [← isOther]
    exact childValid
  cases valid with
  | all index =>
    exact .specificChildren index _ node (List.forall_mem_singleton.mpr inside) (List.forall_mem_singleton.mpr same)
  | specificChildren index masks _ insides valids =>
    refine .specificChildren index _ node ?_ ?_
    · exact List.forall_mem_append.mpr ⟨insides, List.forall_mem_singleton.mpr inside⟩
    · exact List.forall_mem_append.mpr ⟨valids, List.forall_mem_singleton.mpr same⟩

end NodeMask

theorem maskedChild_eq {node child : MerkleNode H T} {mask : NodeMask} (marked : node.children[mask.index]? = some child) :
    maskedChild node mask = .ok (child, mask) := by
  unfold maskedChild
  rw [marked]

theorem maskedChildren_isOk {node : MerkleNode H T} {mask : NodeMask} (valid : mask.ValidFor node) :
    ∃ added, maskedChildren node mask = .ok added ∧ ∀ entry ∈ added, entry.2.ValidFor entry.1 := by
  cases valid with
  | all =>
    refine ⟨_, rfl, ?_⟩
    intro entry member
    rcases List.mem_map.mp member with ⟨child, isChild, rfl⟩
    exact .all _ _
  | specificChildren index masks _ inside valid =>
    change ∃ added, masks.mapM (maskedChild node) = .ok added ∧ _
    induction masks with
    | nil => exact ⟨[], rfl, nofun⟩
    | cons mask masks ih =>
      rw [forall_mem_cons] at inside valid
      have marked := List.getElem?_eq_getElem inside.1
      rcases ih inside.2 valid.2 with ⟨added, others, othersValid⟩
      refine ⟨(node.children.get ⟨mask.index, inside.1⟩, mask) :: added, ?_, ?_⟩
      · rw [mapM_cons, maskedChild_eq marked, others]
        rfl
      · exact List.forall_mem_cons.mpr ⟨valid.1 _ marked, othersValid⟩

theorem nodesFromQueue_isOk (queue : List (MerkleNode H T × NodeMask)) (result : List (MerkleNode H T))
    (valid : ∀ entry ∈ queue, entry.2.ValidFor entry.1) : ∃ nodes, nodesFromQueue queue result = .ok nodes := by
  induction queue, result using nodesFromQueue.induct with
  | case1 result =>
    rw [nodesFromQueue]
    exact ⟨_, rfl⟩
  | case2 result currentNode path queue error marked =>
    rcases maskedChildren_isOk (valid _ mem_cons_self) with ⟨added, isOk, addedValid⟩
    rw [marked] at isOk
    cases isOk
  | case3 result currentNode path queue added marked ih =>
    rcases maskedChildren_isOk (valid _ mem_cons_self) with ⟨others, isOk, othersValid⟩
    rw [marked] at isOk
    injection isOk with same
    subst same
    rcases ih (List.forall_mem_append.mpr ⟨(List.forall_mem_cons.mp valid).2, othersValid⟩) with ⟨nodes, found⟩
    refine ⟨nodes, ?_⟩
    rw [nodesFromQueue]
    split
    · rename_i error failed
      rw [marked] at failed
      cases failed
    · rename_i others isOther
      rw [marked] at isOther
      injection isOther with same
      subst same
      exact found

section Arrange

variable [LinearOrder H] (children : List (MerkleNode H T × Option NodeMask))

instance : Std.Total (byHash : MerkleNode H T × Option NodeMask → MerkleNode H T × Option NodeMask → Prop) :=
  ⟨fun _ _ => le_total _ _⟩

instance : IsTrans (MerkleNode H T × Option NodeMask) byHash := ⟨fun _ _ _ => le_trans⟩

theorem arrange_perm (mask : NodeMask) : (arrange children mask).1.Perm (children.map Prod.fst) :=
  (perm_insertionSort byHash children).map Prod.fst

theorem arrange_sorted (mask : NodeMask) : (arrange children mask).1.Pairwise hashOrder :=
  List.pairwise_map.mpr (pairwise_insertionSort byHash children)

theorem mem_arrange {node : MerkleNode H T} {mask : NodeMask} :
    node ∈ (arrange children mask).1 ↔ ∃ childMask, (node, childMask) ∈ children := by
  rw [(arrange_perm children mask).mem_iff, List.mem_map]
  constructor
  · intro found
    rcases found with ⟨⟨_, childMask⟩, member, rfl⟩
    exact ⟨childMask, member⟩
  · intro found
    rcases found with ⟨childMask, member⟩
    exact ⟨_, member, rfl⟩

variable {children}

theorem arrange_validFor {mask : NodeMask} (valid : ∀ child ∈ children, ∀ mask, child.2 = some mask → mask.ValidFor child.1)
    (hash : H) (nodeId : NodeId T) (start : ∀ node : MerkleNode H T, mask.ValidFor node) :
    (arrange children mask).2.ValidFor (.mk hash (arrange children mask).1 nodeId) := by
  have sortedValid : ∀ child ∈ children.insertionSort byHash, ∀ mask, child.2 = some mask → mask.ValidFor child.1 :=
    fun child member => valid child ((mem_insertionSort byHash).mp member)
  unfold arrange
  dsimp only
  generalize children.insertionSort byHash = sorted at sortedValid
  have indexed : ∀ entry ∈ sorted.zipIdx, sorted[entry.2]? = some entry.1 := by
    intro entry member
    exact List.mem_zipIdx_iff_getElem?.mp member
  replace start := start (.mk hash (sorted.map Prod.fst) nodeId)
  generalize sorted.zipIdx = entries at indexed
  induction entries generalizing mask with
  | nil => exact start
  | cons entry entries ih =>
    rw [forall_mem_cons] at indexed
    rcases entry with ⟨⟨child, childMask⟩, index⟩
    cases childMask with
    | none => exact ih start indexed.2
    | some childMask =>
      have childValid := sortedValid _ (mem_of_getElem? indexed.1) childMask rfl
      refine ih (start.addChild ?_ (childValid.setIndex index)) indexed.2
      rw [NodeMask.index_setIndex]
      exact (List.getElem?_map ..).trans (congrArg (Option.map Prod.fst) indexed.1)

end Arrange

end Warp.Merkle
