import Warp.SumTree.Invariant

namespace Warp.SumTree

open List Option

universe u

variable {T S : Type u} [Add S] [Zero S]

theorem Build.two_le_treeBase (build : Build) : 2 ≤ build.treeBase := by
  unfold Build.treeBase
  split <;> omega

theorem Build.four_le_capacity (build : Build) : 4 ≤ build.capacity := by
  have := build.two_le_treeBase
  unfold Build.capacity
  omega

namespace Node

theorem pushTreeLast_append (build : Build) (init : List (Node T S)) (last other : Node T S) :
    pushTreeLast build (init ++ [last]) other =
      (pushTreeRecursive build last other).map fun (tree, split) => (init ++ [tree], tree, split) := by
  induction init with
  | nil => cases h : pushTreeRecursive build last other <;> simp [pushTreeLast, h]
  | cons first init ih =>
    cases init with
    | nil =>
      simp only [cons_append, nil_append, pushTreeLast]
      cases pushTreeRecursive build last other <;> rfl
    | cons next init =>
      simp only [cons_append] at ih
      simp only [cons_append, pushTreeLast, ih]
      cases pushTreeRecursive build last other <;> rfl

variable [Item T S]

/-- A push at a node of the given height leaves one or two nodes of that height that hold the items. -/
structure Pushed (build : Build) (height : ℕ) (items : List T) (result : Node T S × Option (Node T S)) : Prop where
  self : Child build height result.1
  split : ∀ tree, result.2 = some tree → Child build height tree
  toList : result.1.toList ++ (result.2.elim [] Node.toList) = items

variable {build : Build} {height : ℕ} {trees : List (Node T S)}

theorem child_of_children (some : trees ≠ []) (bound : trees.length ≤ build.capacity)
    (children : ∀ tree ∈ trees, Child build height tree) :
    Child build (height + 1) (internal (height + 1) (sum (trees.map summary)) (trees.map summary) trees) where
  wf := .of_children some bound children
  level := rfl
  nonempty := by
    rw [toList_internal]
    exact toList_ne_nil_of_children some fun tree member => (children tree member).nonempty

theorem child_of_items {build : Build} {items : List T} (some : items ≠ []) (bound : items.length ≤ build.capacity) :
    Child build 0 (Node.leaf (sum (items.map Item.summary)) items (items.map Item.summary)) where
  wf := .leaf bound
  level := rfl
  nonempty := by simpa using some

theorem appendChildren_spec {total : S} {appended : List (Node T S)} (some : trees ≠ [])
    (bound : trees.length ≤ build.capacity) (appendedBound : appended.length ≤ build.capacity)
    (children : ∀ tree ∈ trees ++ appended, Child build height tree)
    (totalEq : total = sum ((trees ++ appended).map Node.summary)) :
    ∃ result, appendChildren build (height + 1) total (trees.map summary) trees (appended.map summary) appended =
      Option.some result ∧ Pushed build (height + 1) ((trees ++ appended).flatMap Node.toList) result := by
  have positive := List.length_pos_iff.mpr some
  have capacity := build.four_le_capacity
  unfold appendChildren
  by_cases overflow : build.capacity < trees.length + appended.length
  · generalize midpointEq : (trees.length + appended.length + (trees.length + appended.length) % 2) / 2 = midpoint
    have lengthEq : (trees ++ appended).length = trees.length + appended.length := length_append
    have leftLength : ((trees ++ appended).take midpoint).length = midpoint := by
      rw [length_take, lengthEq]
      omega
    have rightLength : ((trees ++ appended).drop midpoint).length = trees.length + appended.length - midpoint := by
      rw [length_drop, lengthEq]
    refine ⟨(internal (height + 1) (sum (((trees ++ appended).take midpoint).map summary))
        (((trees ++ appended).take midpoint).map summary) ((trees ++ appended).take midpoint),
      Option.some (internal (height + 1) (sum (((trees ++ appended).drop midpoint).map summary))
        (((trees ++ appended).drop midpoint).map summary) ((trees ++ appended).drop midpoint))), ?_, ?_, ?_, ?_⟩
    · simp only [overflow, ↓reduceIte, midpointEq, ← map_append, ← map_take, ← map_drop]
      rw [ArrayVec.collect_of_le (by rw [length_map]; omega), ArrayVec.collect_of_le (by rw [length_map]; omega),
        ArrayVec.collect_of_le (by omega), ArrayVec.collect_of_le (by omega)]
      rfl
    · exact child_of_children (ne_nil_of_length_pos (by omega)) (by omega)
        fun tree member => children tree (mem_of_mem_take member)
    · rintro tree ⟨⟩
      exact child_of_children (ne_nil_of_length_pos (by omega)) (by omega)
        fun tree member => children tree (mem_of_mem_drop member)
    · simp only [toList_internal, elim_some]
      rw [← flatMap_append, take_append_drop]
  · refine ⟨(internal (height + 1) (sum ((trees ++ appended).map summary)) ((trees ++ appended).map summary)
      (trees ++ appended), none), ?_, ?_, ?_, ?_⟩
    · simp only [overflow, ↓reduceIte]
      rw [ArrayVec.extend_of_le (by simp only [length_map]; omega), ArrayVec.extend_of_le (by omega), totalEq,
        map_append]
      rfl
    · exact child_of_children (by simp [some]) (by rw [length_append]; omega) children
    · rintro tree ⟨⟩
    · simp [toList_internal]

theorem appendItems_spec {items appended : List T} [LawfulSummary S] (some : appended ≠ [])
    (bound : items.length ≤ build.capacity) (appendedBound : appended.length ≤ build.capacity) :
    ∃ result, appendItems build (sum (items.map Item.summary)) items (items.map Item.summary)
        (Node.leaf (sum (appended.map Item.summary)) appended (appended.map Item.summary)) = Option.some result ∧
      Pushed build 0 (items ++ appended) result := by
  have positive := List.length_pos_iff.mpr some
  have capacity := build.four_le_capacity
  simp only [appendItems, items?, childSummaries, bind_eq_bind, bind_some]
  by_cases overflow : build.capacity < items.length + appended.length
  · generalize midpointEq : (items.length + appended.length + (items.length + appended.length) % 2) / 2 = midpoint
    have lengthEq : (items ++ appended).length = items.length + appended.length := length_append
    have leftLength : ((items ++ appended).take midpoint).length = midpoint := by
      rw [length_take, lengthEq]
      omega
    have rightLength : ((items ++ appended).drop midpoint).length = items.length + appended.length - midpoint := by
      rw [length_drop, lengthEq]
    refine ⟨(Node.leaf (sum (((items ++ appended).take midpoint).map Item.summary)) ((items ++ appended).take midpoint)
        (((items ++ appended).take midpoint).map Item.summary),
      Option.some (Node.leaf (sum (((items ++ appended).drop midpoint).map Item.summary))
        ((items ++ appended).drop midpoint) (((items ++ appended).drop midpoint).map Item.summary))), ?_, ?_, ?_, ?_⟩
    · simp only [overflow, ↓reduceIte, ← map_append, ← map_take, ← map_drop]
      rw [ArrayVec.collect_of_le (by omega), ArrayVec.collect_of_le (by omega),
        ArrayVec.collect_of_le (by rw [length_map]; omega), ArrayVec.collect_of_le (by rw [length_map]; omega)]
      rfl
    · exact child_of_items (ne_nil_of_length_pos (by omega)) (by omega)
    · rintro tree ⟨⟩
      exact child_of_items (ne_nil_of_length_pos (by omega)) (by omega)
    · simp
  · refine ⟨(Node.leaf (sum ((items ++ appended).map Item.summary)) (items ++ appended)
      ((items ++ appended).map Item.summary), none), ?_, ?_, ?_, ?_⟩
    · simp only [overflow, ↓reduceIte, summary]
      rw [ArrayVec.extend_of_le (by omega), ArrayVec.extend_of_le (by simp only [length_map]; omega),
        map_append, sum_append _ (by simpa using some)]
      rfl
    · exact child_of_items (by simp [some]) (by rw [length_append]; omega)
    · rintro tree ⟨⟩
    · simp

variable [LawfulSummary S]

theorem sum_children (children : ∀ tree ∈ trees, Child build height tree) :
    sum (trees.map summary) = sum ((trees.flatMap toList).map Item.summary) := by
  have sums : trees.map summary = (trees.map fun tree => tree.toList.map Item.summary).map sum := by
    rw [List.map_map]
    exact map_congr_left fun tree member => (children tree member).wf.summary_eq
  have nonempty : ∀ list ∈ trees.map fun tree => tree.toList.map Item.summary, list ≠ [] := by
    intro list member
    obtain ⟨tree, child, rfl⟩ := List.mem_map.mp member
    simpa using (children tree child).nonempty
  rw [sums, sum_map_sum nonempty]
  simp [flatMap_def, map_flatten, Function.comp_def]

theorem sum_appended {after : List (Node T S)} {other : Node T S} (wf : other.WF build) (nonempty : other.toList ≠ [])
    (children : ∀ tree ∈ trees, Child build height tree) (childrenAfter : ∀ tree ∈ after, Child build height tree)
    (items : after.flatMap toList = trees.flatMap toList ++ other.toList) :
    sum (trees.map summary) + other.summary = sum (after.map summary) := by
  rw [sum_children children, sum_children childrenAfter, items, map_append, wf.summary_eq]
  exact (sum_append _ (by simpa using nonempty)).symm

theorem pushTreeRecursive_spec {self other : Node T S} (wf : self.WF build) (otherWF : other.WF build)
    (nonempty : other.toList ≠ []) (level : other.height ≤ self.height) :
    ∃ result, pushTreeRecursive build self other = some result ∧
      Pushed build self.height (self.toList ++ other.toList) result := by
  induction wf generalizing other with
  | leaf bound =>
    obtain ⟨items, rfl, otherBound⟩ := otherWF.leaf_of_height (Nat.le_zero.mp level)
    rw [pushTreeRecursive]
    exact appendItems_spec (by simpa using nonempty) bound otherBound
  | @internal height childTrees some bound childWF childLevel childNonempty ih =>
    have children : ∀ tree ∈ childTrees, Child build height tree := fun tree member =>
      ⟨childWF tree member, childLevel tree member, childNonempty tree member⟩
    have capacity := build.four_le_capacity
    have notAbove : ¬ height + 1 < other.height := Nat.not_lt.mpr level
    rw [pushTreeRecursive]
    simp only [height_internal, notAbove, ↓reduceIte, toList_internal]
    by_cases same : height + 1 - other.height = 0
    · cases otherWF with
      | leaf => simp at same
      | @internal otherHeight otherTrees otherSome otherBound otherChildWF otherLevel otherNonempty =>
        have heightEq : otherHeight = height := by
          simp only [height_internal] at same level
          omega
        subst heightEq
        have all : ∀ tree ∈ childTrees ++ otherTrees, Child build otherHeight tree := by
          intro tree member
          rcases List.mem_append.mp member with member | member
          · exact children tree member
          · exact ⟨otherChildWF tree member, otherLevel tree member, otherNonempty tree member⟩
        have total := sum_appended (.internal otherSome otherBound otherChildWF otherLevel otherNonempty) nonempty
          children all (by simp [toList_internal])
        simp only [same, ↓reduceIte, childTrees?, childSummaries, bind_eq_bind, bind_some]
        rw [ArrayVec.extend_of_le (by simpa using otherBound), ArrayVec.extend_of_le (by simpa using otherBound)]
        simpa [toList_internal] using appendChildren_spec some bound otherBound all total
    · by_cases direct : height + 1 - other.height = 1 ∧ ¬ other.isUnderflowing build
      · have all : ∀ tree ∈ childTrees ++ [other], Child build height tree := by
          intro tree member
          rcases List.mem_append.mp member with member | member
          · exact children tree member
          · rw [List.mem_singleton.mp member]
            exact ⟨otherWF, by omega, nonempty⟩
        have total := sum_appended otherWF nonempty children all (by simp)
        simp only [direct, bind_eq_bind]
        rw [ArrayVec.push_of_lt (by simp only [length_nil]; omega),
          ArrayVec.push_of_lt (by simp only [length_nil]; omega)]
        simpa using appendChildren_spec some bound (by simp only [length_singleton]; omega)
          all total
      · obtain ⟨init, last, rfl⟩ := (eq_nil_or_concat childTrees).resolve_left some
        simp only [concat_eq_append] at *
        have lastLevel := childLevel last (by simp)
        obtain ⟨⟨tree, split⟩, result, pushed⟩ := ih last (by simp) otherWF nonempty (by omega)
        rw [lastLevel] at pushed
        have all : ∀ child ∈ (init ++ [tree]) ++ split.toList, Child build height child := by
          intro child member
          simp only [mem_append, mem_singleton, mem_toList] at member
          rcases member with (member | rfl) | member
          · exact children child (by simp [member])
          · exact pushed.self
          · exact pushed.split child member
        have items : ((init ++ [tree]) ++ split.toList).flatMap toList = (init ++ [last]).flatMap toList ++ other.toList := by
          have eq := pushed.toList
          cases split <;> simp_all
        have total := sum_appended otherWF nonempty children all items
        have bound' : (init ++ [tree]).length ≤ build.capacity := by simpa using bound
        have spec := appendChildren_spec (by simp) bound'
          (by cases split <;> simp only [toList_none, toList_some, length_nil, length_singleton] <;>
            omega) all total
        rw [items] at spec
        simp only [same, direct, ↓reduceIte, bind_eq_bind, pushTreeLast_append, result, map_some,
          bind_some, map_append, map_cons, map_nil, List.getLast?_append, List.getLast?_singleton,
          some_or, dropLast_concat]
        cases split with
        | none => simpa using spec
        | some splitTree =>
          dsimp only
          rw [ArrayVec.push_of_lt (by simp only [length_nil]; omega),
            ArrayVec.push_of_lt (by simp only [length_nil]; omega)]
          simpa using spec

end Node

end Warp.SumTree
