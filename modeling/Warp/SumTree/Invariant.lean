import Warp.SumTree.Node

namespace Warp.SumTree

open List

universe u

variable {T S : Type u} [Add S] [Zero S]

section Sums

variable [LawfulSummary S]

theorem foldl_add (r s : S) (summaries : List S) :
    summaries.foldl (· + ·) (r + s) = r + summaries.foldl (· + ·) s := by
  induction summaries generalizing s with
  | nil => rfl
  | cons first rest ih => rw [foldl_cons, foldl_cons, LawfulSummary.add_assoc, ih]

omit [LawfulSummary S] in
@[simp] theorem sum_nil : sum ([] : List S) = 0 := rfl

@[simp] theorem sum_singleton (s : S) : sum [s] = s := LawfulSummary.zero_add s

theorem sum_append (left : List S) {right : List S} (nonempty : right ≠ []) :
    sum (left ++ right) = sum left + sum right := by
  cases right with
  | nil => contradiction
  | cons first rest =>
    simp only [sum, List.foldl_append, foldl_cons, LawfulSummary.zero_add]
    exact foldl_add _ _ _

theorem sum_map_sum {lists : List (List S)} (nonempty : ∀ list ∈ lists, list ≠ []) :
    sum (lists.map sum) = sum lists.flatten := by
  induction lists using List.reverseRecOn with
  | nil => rfl
  | append_singleton lists last ih =>
    have earlier := ih fun list member => nonempty list (by simp [member])
    have lastNonempty := nonempty last (by simp)
    rw [map_append, flatten_append, sum_append _ (by simp), earlier]
    simp [sum_append _ lastNonempty]

end Sums

variable [Item T S]

namespace Node

/-- Cached summaries are exact, siblings have one height, only a root leaf is empty, and no `ArrayVec` is overfull. -/
inductive WF (build : Build) : Node T S → Prop
  | leaf {items : List T} (bound : items.length ≤ build.capacity) :
    WF build (leaf (sum (items.map Item.summary)) items (items.map Item.summary))
  | internal {height : ℕ} {childTrees : List (Node T S)} (some : childTrees ≠ [])
    (bound : childTrees.length ≤ build.capacity)
    (wf : ∀ tree ∈ childTrees, WF build tree)
    (level : ∀ tree ∈ childTrees, tree.height = height)
    (nonempty : ∀ tree ∈ childTrees, tree.toList ≠ []) :
    WF build (internal (height + 1) (sum (childTrees.map summary)) (childTrees.map summary) childTrees)

structure Child (build : Build) (height : ℕ) (tree : Node T S) : Prop where
  wf : tree.WF build
  level : tree.height = height
  nonempty : tree.toList ≠ []

variable {build : Build} {tree : Node T S}

theorem WF.of_children {height : ℕ} {childTrees : List (Node T S)} (some : childTrees ≠ [])
    (bound : childTrees.length ≤ build.capacity) (children : ∀ tree ∈ childTrees, Child build height tree) :
    WF build (Node.internal (height + 1) (sum (childTrees.map summary)) (childTrees.map summary) childTrees) :=
  .internal some bound (fun tree member => (children tree member).wf)
    (fun tree member => (children tree member).level) (fun tree member => (children tree member).nonempty)

theorem WF.summary_eq [LawfulSummary S] (wf : tree.WF build) :
    tree.summary = sum (tree.toList.map Item.summary) := by
  induction wf with
  | leaf bound => simp
  | @internal height childTrees some bound wf level nonempty ih =>
    have sums : childTrees.map summary = (childTrees.map fun tree => tree.toList.map Item.summary).map sum := by
      rw [List.map_map]
      exact map_congr_left ih
    rw [toList_internal, summary_internal, sums, sum_map_sum]
    · simp [flatMap_def, map_flatten, Function.comp_def]
    · intro list member
      obtain ⟨tree, child, rfl⟩ := List.mem_map.mp member
      simpa using nonempty tree child

theorem WF.leaf_of_height (wf : tree.WF build) (zero : tree.height = 0) :
    ∃ items : List T, tree = Node.leaf (sum (items.map Item.summary)) items (items.map Item.summary) ∧
      items.length ≤ build.capacity := by
  cases wf with
  | leaf bound => exact ⟨_, rfl, bound⟩
  | internal => simp at zero

theorem WF.new (build : Build) : (Node.new : Node T S).WF build :=
  @WF.leaf T S _ _ _ build [] (Nat.zero_le _)

theorem WF.node {node : Node T S} (wf : tree.WF build) (member : node ∈ tree.nodes) :
    node.WF build := by
  induction wf with
  | @leaf items bound =>
    simp only [nodes, mem_singleton] at member
    exact member ▸ .leaf bound
  | @internal height childTrees some bound wf level nonempty ih =>
    simp only [nodes, nodesOf_eq, mem_cons, mem_flatMap] at member
    rcases member with rfl | ⟨tree, child, member⟩
    · exact .internal some bound wf level nonempty
    · exact ih tree child member

theorem WF.entries_le (wf : tree.WF build) : tree.entries ≤ build.capacity := by
  cases wf with
  | leaf bound => exact bound
  | internal some bound => exact bound

theorem WF.childSummaries_eq [LawfulSummary S] (wf : tree.WF build) :
    tree.childSummaries = tree.parts.map fun items => sum (items.map Item.summary) := by
  cases wf with
  | leaf bound => simp [childSummaries, parts, Function.comp_def]
  | internal some bound wf level nonempty =>
    simp only [childSummaries, parts, List.map_map]
    exact map_congr_left fun tree member => (wf tree member).summary_eq

theorem WF.leafDepths_eq (wf : tree.WF build) :
    ∀ depth ∈ tree.leafDepths, depth = tree.height := by
  induction wf with
  | leaf bound => simp [leafDepths]
  | @internal h childTrees some bound wf level nonempty ih =>
    intro depth member
    simp only [leafDepths, leafDepthsOf_eq, List.mem_map, mem_flatMap] at member
    obtain ⟨below, ⟨tree, child, member⟩, rfl⟩ := member
    rw [ih tree child below member, level tree child]
    rfl

end Node

end Warp.SumTree
