import Warp.Merkle.Update

namespace Warp.Merkle

open List

variable {H T : Type}

structure MerkleTree (H T : Type) where
  root : MerkleNode H T

structure TreeUpdateResult (H T : Type) where
  nodeLens : List (MerkleNode H T)
  leafToFragmentMetaUpdates : LeafToFragmentMetadataUpdates H

mutual

def MerkleNode.size : MerkleNode H T → ℕ
  | .mk _ children _ => childrenSize children + 1

def childrenSize : List (MerkleNode H T) → ℕ
  | [] => 0
  | child :: children => child.size + childrenSize children

end

mutual

def NodeMask.visits (node : MerkleNode H T) : NodeMask → ℕ
  | .all _ => node.size
  | .specificChildren _ masks => masksVisits node masks + 1

def masksVisits (node : MerkleNode H T) : List NodeMask → ℕ
  | [] => 0
  | mask :: masks =>
    (match node.children[mask.index]? with
      | some child => mask.visits child
      | none => 0) + masksVisits node masks

end

def maskedChild (node : MerkleNode H T) (mask : NodeMask) : Except Error (MerkleNode H T × NodeMask) :=
  match node.children[mask.index]? with
  | some child => .ok (child, mask)
  | none => .error (.invalidChildIndex mask.index node.children.length)

def maskedChildren (node : MerkleNode H T) : NodeMask → Except Error (List (MerkleNode H T × NodeMask))
  | .all _ => .ok (node.children.zipIdx.map fun entry => (entry.1, .all entry.2))
  | .specificChildren _ masks => masks.mapM (maskedChild node)

def queueVisits (queue : List (MerkleNode H T × NodeMask)) : ℕ := (queue.map fun entry => entry.2.visits entry.1).sum

theorem queueVisits_append (queue added : List (MerkleNode H T × NodeMask)) :
    queueVisits (queue ++ added) = queueVisits queue + queueVisits added := by
  unfold queueVisits
  rw [map_append, List.sum_append]

theorem queueVisits_all (children : List (MerkleNode H T)) (i : ℕ) :
    queueVisits ((children.zipIdx i).map fun entry => (entry.1, NodeMask.all entry.2)) = childrenSize children := by
  induction children generalizing i with
  | nil => rfl
  | cons child children ih =>
    have rest := ih (i + 1)
    unfold queueVisits at rest ⊢
    rw [zipIdx_cons, map_cons, map_cons, sum_cons, rest]
    rfl

variable {added : List (MerkleNode H T × NodeMask)} {node : MerkleNode H T}

theorem queueVisits_specific {masks : List NodeMask} (marked : masks.mapM (maskedChild node) = .ok added) :
    queueVisits added = masksVisits node masks := by
  induction masks generalizing added with
  | nil =>
    injection marked with same
    subst same
    rfl
  | cons mask masks ih =>
    rw [mapM_cons] at marked
    unfold masksVisits
    cases found : node.children[mask.index]? with
    | none =>
      have fails : maskedChild node mask = .error (.invalidChildIndex mask.index node.children.length) := by
        unfold maskedChild
        rw [found]
      rw [fails] at marked
      cases marked
    | some child =>
      have first : maskedChild node mask = .ok (child, mask) := by
        unfold maskedChild
        rw [found]
      rw [first] at marked
      cases rest : masks.mapM (maskedChild node) with
      | error error =>
        rw [rest] at marked
        cases marked
      | ok others =>
        rw [rest] at marked
        injection marked with same
        subst same
        have others := ih rest
        unfold queueVisits at others ⊢
        rw [map_cons, sum_cons, others]

theorem queueVisits_maskedChildren {mask : NodeMask} (marked : maskedChildren node mask = .ok added) :
    queueVisits added + 1 = mask.visits node := by
  cases mask with
  | all index =>
    injection marked with same
    subst same
    rw [queueVisits_all]
    cases node
    rfl
  | specificChildren index masks =>
    rw [queueVisits_specific marked]
    rfl

def nodesFromQueue (queue : List (MerkleNode H T × NodeMask)) (result : List (MerkleNode H T)) :
    Except Error (List (MerkleNode H T)) :=
  match queue with
  | [] => .ok result.reverse
  | (currentNode, path) :: queue =>
    match _marked : maskedChildren currentNode path with
    | .error error => .error error
    | .ok added => nodesFromQueue (queue ++ added) (result ++ [currentNode])
termination_by queueVisits queue
decreasing_by
  rw [queueVisits_append]
  have := queueVisits_maskedChildren _marked
  have unfolded : queueVisits ((currentNode, path) :: queue) = path.visits currentNode + queueVisits queue := by
    unfold queueVisits
    rw [map_cons, sum_cons]
  omega

namespace MerkleTree

variable [LinearOrder H] (env : Env H)

def tryNew (fs : FileSystem T) (entry : Entry) : Except Error (MerkleTree H T × LeafToFragmentMetadata H) := do
  let (root, mappingUpdate) ← newEntry env fs entry
  .ok (⟨root⟩, ⟨mappingUpdate.toInsert⟩)

def nodesFromMask (self : MerkleTree H T) (nodeMask : NodeMask) : Except Error (List (MerkleNode H T)) :=
  nodesFromQueue [(self.root, nodeMask)] []

/-- The tree is changed also where the nodes of the mask cannot be found. -/
def finish (step : Step H T) : MerkleTree H T × Except Error (TreeUpdateResult H T) :=
  let tree : MerkleTree H T := ⟨step.node⟩
  (tree, do
    let nodeLens ← if step.result = .noChange then .ok [tree.root] else tree.nodesFromMask step.mask
    .ok ⟨nodeLens, step.updates⟩)

def upsertFiles (fs : FileSystem T) (self : MerkleTree H T) (paths : HashSet Path) :
    MerkleTree H T × Except Error (TreeUpdateResult H T) :=
  finish (Merkle.upsertFiles env fs paths (.all 0) .empty self.root)

def removeFiles (self : MerkleTree H T) (paths : HashSet Path) :
    MerkleTree H T × Except Error (TreeUpdateResult H T) :=
  finish (Merkle.removeFiles env paths (.all 0) .empty self.root)

end MerkleTree

end Warp.Merkle
