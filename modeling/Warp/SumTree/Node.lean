import Warp.Lib.ArrayVec

namespace Warp.SumTree

universe u

structure Build where
  testUtil : Bool
  debugAssertions : Bool

def Build.treeBase (build : Build) : ℕ := if build.testUtil then 2 else 6

def Build.capacity (build : Build) : ℕ := 2 * build.treeBase

class Item (T : Type u) (S : outParam (Type u)) where
  summary : T → S

/-- What a tree asks of `+=` and `default` on summaries; a monoid has more. -/
class LawfulSummary (S : Type u) [Add S] [Zero S] : Prop where
  zero_add (s : S) : 0 + s = s
  add_assoc (r s t : S) : r + s + t = r + (s + t)

instance {S : Type u} [AddMonoid S] : LawfulSummary S where
  zero_add := AddMonoid.zero_add
  add_assoc := AddSemigroup.add_assoc

inductive Node (T : Type u) (S : Type u) where
  | internal (height : ℕ) (summary : S) (childSummaries : List S) (childTrees : List (Node T S))
  | leaf (summary : S) (items : List T) (itemSummaries : List S)

variable {T : Type u} {S : Type u}

namespace Node

def isLeaf : Node T S → Bool
  | internal .. => false
  | leaf .. => true

def height : Node T S → ℕ
  | internal height .. => height
  | leaf .. => 0

def summary : Node T S → S
  | internal _ summary .. => summary
  | leaf summary .. => summary

def childSummaries : Node T S → List S
  | internal _ _ childSummaries _ => childSummaries
  | leaf _ _ itemSummaries => itemSummaries

/-- `none` is the panic of `child_trees` on a leaf. -/
def childTrees? : Node T S → Option (List (Node T S))
  | internal _ _ _ childTrees => some childTrees
  | leaf .. => none

/-- `none` is the panic of `items` on an internal node. -/
def items? : Node T S → Option (List T)
  | internal .. => none
  | leaf _ items _ => some items

def isUnderflowing (build : Build) : Node T S → Bool
  | internal _ _ _ childTrees => childTrees.length < build.treeBase
  | leaf _ items _ => items.length < build.treeBase

end Node

section Operations

variable [Add S] [Zero S]

def sum (summaries : List S) : S := summaries.foldl (· + ·) 0

namespace Node

def new : Node T S := leaf 0 [] []

def fromChildTrees (build : Build) (childTrees : List (Node T S)) : Option (Node T S) := do
  let first ← childTrees.head?
  let childSummaries ← ArrayVec.collect build.capacity (childTrees.map summary)
  let childTrees ← ArrayVec.collect build.capacity childTrees
  return internal (first.height + 1) (sum childSummaries) childSummaries childTrees

/-- The second half of `push_tree_recursive` on an internal node: append the children, or split at the midpoint. -/
def appendChildren (build : Build) (height : ℕ) (summary : S) (childSummaries : List S)
    (childTrees : List (Node T S)) (summariesToAppend : List S) (treesToAppend : List (Node T S)) :
    Option (Node T S × Option (Node T S)) := do
  let childCount := childTrees.length + treesToAppend.length
  if childCount > build.capacity then
    let midpoint := (childCount + childCount % 2) / 2
    let allSummaries := childSummaries ++ summariesToAppend
    let allTrees := childTrees ++ treesToAppend
    let leftSummaries ← ArrayVec.collect build.capacity (allSummaries.take midpoint)
    let rightSummaries ← ArrayVec.collect build.capacity (allSummaries.drop midpoint)
    let leftTrees ← ArrayVec.collect build.capacity (allTrees.take midpoint)
    let rightTrees ← ArrayVec.collect build.capacity (allTrees.drop midpoint)
    return (internal height (sum leftSummaries) leftSummaries leftTrees,
      some (internal height (sum rightSummaries) rightSummaries rightTrees))
  else
    let childSummaries ← ArrayVec.extend build.capacity childSummaries summariesToAppend
    let childTrees ← ArrayVec.extend build.capacity childTrees treesToAppend
    return (internal height summary childSummaries childTrees, none)

/-- `push_tree_recursive` on a leaf: the other leaf's items are appended, or both are split at the midpoint. -/
def appendItems (build : Build) (summary : S) (items : List T) (itemSummaries : List S) (other : Node T S) :
    Option (Node T S × Option (Node T S)) := do
  let otherItems ← other.items?
  let childCount := items.length + otherItems.length
  if childCount > build.capacity then
    let midpoint := (childCount + childCount % 2) / 2
    let allItems := items ++ otherItems
    let allSummaries := itemSummaries ++ other.childSummaries
    let leftItems ← ArrayVec.collect build.capacity (allItems.take midpoint)
    let rightItems ← ArrayVec.collect build.capacity (allItems.drop midpoint)
    let leftSummaries ← ArrayVec.collect build.capacity (allSummaries.take midpoint)
    let rightSummaries ← ArrayVec.collect build.capacity (allSummaries.drop midpoint)
    return (leaf (sum leftSummaries) leftItems leftSummaries,
      some (leaf (sum rightSummaries) rightItems rightSummaries))
  else
    let items ← ArrayVec.extend build.capacity items otherItems
    let itemSummaries ← ArrayVec.extend build.capacity itemSummaries other.childSummaries
    return (leaf (summary + other.summary) items itemSummaries, none)

mutual

def pushTreeRecursive (build : Build) : Node T S → Node T S → Option (Node T S × Option (Node T S))
  | internal height summary childSummaries childTrees, other => do
    -- `*height - other_node.height()` is a `u8` subtraction
    if height < other.height then none
    else
      let summary := summary + other.summary
      let heightDelta := height - other.height
      if heightDelta = 0 then
        let trees ← other.childTrees?
        let summariesToAppend ← ArrayVec.extend build.capacity [] other.childSummaries
        let treesToAppend ← ArrayVec.extend build.capacity [] trees
        appendChildren build height summary childSummaries childTrees summariesToAppend treesToAppend
      else if heightDelta = 1 ∧ ¬ other.isUnderflowing build then
        let summariesToAppend ← ArrayVec.push build.capacity [] other.summary
        let treesToAppend ← ArrayVec.push build.capacity [] other
        appendChildren build height summary childSummaries childTrees summariesToAppend treesToAppend
      else
        let (childTrees, last, treeToAppend) ← pushTreeLast build childTrees other
        let _ ← childSummaries.getLast?
        let childSummaries := childSummaries.dropLast ++ [last.summary]
        match treeToAppend with
        | some splitTree =>
          let summariesToAppend ← ArrayVec.push build.capacity [] splitTree.summary
          let treesToAppend ← ArrayVec.push build.capacity [] splitTree
          appendChildren build height summary childSummaries childTrees summariesToAppend treesToAppend
        | none => appendChildren build height summary childSummaries childTrees [] []
  | leaf summary items itemSummaries, other => appendItems build summary items itemSummaries other

/-- `child_trees.last_mut().unwrap().push_tree_recursive(other)`: the children afterwards, the last of them, and the
    tree split off it. -/
def pushTreeLast (build : Build) : List (Node T S) → Node T S → Option (List (Node T S) × Node T S × Option (Node T S))
  | [], _ => none
  | [tree], other => do
    let (tree, treeToAppend) ← pushTreeRecursive build tree other
    return ([tree], tree, treeToAppend)
  | tree :: next :: rest, other => do
    let (trees, last, treeToAppend) ← pushTreeLast build (next :: rest) other
    return (tree :: trees, last, treeToAppend)

end

def pushTreeNode (build : Build) (self other : Node T S) : Option (Node T S) := do
  match ← pushTreeRecursive build self other with
  | (self, none) => return self
  | (self, some splitTree) => fromChildTrees build [self, splitTree]

mutual

def pushTree (build : Build) (self : Node T S) : Node T S → Option (Node T S)
  | leaf summary items itemSummaries =>
    if items.isEmpty then some self else pushTreeNode build self (leaf summary items itemSummaries)
  | internal height summary childSummaries childTrees =>
    if self.height < height then pushTrees build self childTrees
    else pushTreeNode build self (internal height summary childSummaries childTrees)

def pushTrees (build : Build) (self : Node T S) : List (Node T S) → Option (Node T S)
  | [] => some self
  | tree :: trees => do
    let self ← pushTree build self tree
    pushTrees build self trees

end

/-- `push` wraps the item in a tree of height one. -/
def push [Item T S] (build : Build) (self : Node T S) (item : T) : Option (Node T S) := do
  let itemSummary := Item.summary item
  let tree ← fromChildTrees build [leaf itemSummary [item] [itemSummary]]
  pushTree build self tree

/-- The loop of `extend`; the last argument is the leaf being filled: its summary, items and item summaries. -/
def extendLoop [Item T S] (build : Build) : List T → Node T S → Option (S × List T × List S) → Option (Node T S)
  | [], self, none => some self
  | [], self, some (summary, items, itemSummaries) => pushTree build self (leaf summary items itemSummaries)
  | item :: rest, self, filling => do
    let (self, filling) ← match filling with
      | none => pure (self, none)
      | some (summary, items, itemSummaries) =>
        if items.length = build.capacity then do
          let self ← pushTree build self (leaf summary items itemSummaries)
          pure (self, none)
        else pure (self, some (summary, items, itemSummaries))
    let (summary, items, itemSummaries) := filling.getD (0, [], [])
    let itemSummary := Item.summary item
    let items ← ArrayVec.push build.capacity items item
    let itemSummaries ← ArrayVec.push build.capacity itemSummaries itemSummary
    extendLoop build rest self (some (summary + itemSummary, items, itemSummaries))

def extend [Item T S] (build : Build) (self : Node T S) (items : List T) : Option (Node T S) :=
  extendLoop build items self none

def isEmpty : Node T S → Bool
  | leaf _ items _ => items.isEmpty
  | internal .. => false

mutual

def updateLastLeafRecursive [Item T S] (f : T → T) : Node T S → Option (Node T S × S)
  | internal height _ childSummaries childTrees => do
    let _ ← childSummaries.getLast?
    let (childTrees, lastSummary) ← updateLastChild f childTrees
    let childSummaries := childSummaries.dropLast ++ [lastSummary]
    let summary := sum childSummaries
    return (internal height summary childSummaries childTrees, summary)
  | leaf _ items itemSummaries => do
    let item ← items.getLast?
    let _ ← itemSummaries.getLast?
    let item := f item
    let itemSummaries := itemSummaries.dropLast ++ [Item.summary item]
    let summary := sum itemSummaries
    return (leaf summary (items.dropLast ++ [item]) itemSummaries, summary)

def updateLastChild [Item T S] (f : T → T) : List (Node T S) → Option (List (Node T S) × S)
  | [] => none
  | [tree] => do
    let (tree, summary) ← updateLastLeafRecursive f tree
    return ([tree], summary)
  | tree :: next :: rest => do
    let (trees, summary) ← updateLastChild f (next :: rest)
    return (tree :: trees, summary)

end

/-- `update_last` on an empty tree only logs a warning. -/
def updateLast [Item T S] (self : Node T S) (f : T → T) : Option (Node T S) :=
  if self.isEmpty then some self else (updateLastLeafRecursive f self).map Prod.fst

end Node

end Operations

namespace Node

mutual

def toList : Node T S → List T
  | internal _ _ _ childTrees => toLists childTrees
  | leaf _ items _ => items

def toLists : List (Node T S) → List T
  | [] => []
  | tree :: trees => tree.toList ++ toLists trees

end

mutual

def nodes : Node T S → List (Node T S)
  | internal height summary childSummaries childTrees =>
    internal height summary childSummaries childTrees :: nodesOf childTrees
  | leaf summary items itemSummaries => [leaf summary items itemSummaries]

def nodesOf : List (Node T S) → List (Node T S)
  | [] => []
  | tree :: trees => tree.nodes ++ nodesOf trees

end

mutual

def leafDepths : Node T S → List ℕ
  | internal _ _ _ childTrees => (leafDepthsOf childTrees).map (· + 1)
  | leaf .. => [0]

def leafDepthsOf : List (Node T S) → List ℕ
  | [] => []
  | tree :: trees => tree.leafDepths ++ leafDepthsOf trees

end

/-- The number of slots a node uses in each of its two `ArrayVec`s. -/
def entries : Node T S → ℕ
  | internal _ _ _ childTrees => childTrees.length
  | leaf _ items _ => items.length

def parts : Node T S → List (List T)
  | internal _ _ _ childTrees => childTrees.map toList
  | leaf _ items _ => items.map ([·])

section Accessors

variable (h : ℕ) (s : S) (childSummaries : List S) (childTrees : List (Node T S)) (items : List T)

@[simp] theorem height_internal : (internal h s childSummaries childTrees).height = h := rfl

@[simp] theorem height_leaf : (leaf s items childSummaries : Node T S).height = 0 := rfl

@[simp] theorem summary_internal : (internal h s childSummaries childTrees).summary = s := rfl

@[simp] theorem summary_leaf : (leaf s items childSummaries : Node T S).summary = s := rfl

end Accessors

theorem toLists_eq (trees : List (Node T S)) : toLists trees = trees.flatMap toList := by
  induction trees with
  | nil => rfl
  | cons tree trees ih => simp [toLists, ih]

theorem toList_internal (height : ℕ) (summary : S) (childSummaries : List S) (childTrees : List (Node T S)) :
    (internal height summary childSummaries childTrees).toList = childTrees.flatMap toList := by
  rw [toList, toLists_eq]

@[simp] theorem toList_leaf (summary : S) (items : List T) (itemSummaries : List S) :
    (leaf summary items itemSummaries).toList = items := by
  rw [toList]

theorem toList_ne_nil_of_children {childTrees : List (Node T S)} (some : childTrees ≠ [])
    (nonempty : ∀ tree ∈ childTrees, tree.toList ≠ []) : childTrees.flatMap toList ≠ [] := by
  obtain ⟨first, rest, rfl⟩ := List.exists_cons_of_ne_nil some
  simp [nonempty first (by simp)]

theorem nodesOf_eq (trees : List (Node T S)) : nodesOf trees = trees.flatMap nodes := by
  induction trees with
  | nil => rfl
  | cons tree trees ih => simp [nodesOf, ih]

theorem leafDepthsOf_eq (trees : List (Node T S)) : leafDepthsOf trees = trees.flatMap leafDepths := by
  induction trees with
  | nil => rfl
  | cons tree trees ih => simp [leafDepthsOf, ih]

end Node

end Warp.SumTree
