import Mathlib.Data.List.ModifyLast
import Warp.SumTree.Push

namespace Warp.SumTree

open List Option

universe u

variable {T S : Type u} [Add S] [Zero S] [Item T S]

structure Tree (build : Build) (T : Type u) {S : Type u} [Add S] [Zero S] [Item T S] where
  node : Node T S
  wf : node.WF build

def Tree.new (build : Build) : Tree build T := ⟨Node.new, .new build⟩

namespace Node

variable {build : Build} {self tree : Node T S}

theorem fromChildTrees_spec {height : ℕ} {trees : List (Node T S)} (some : trees ≠ [])
    (bound : trees.length ≤ build.capacity) (children : ∀ tree ∈ trees, Child build height tree) :
    fromChildTrees build trees =
      Option.some (internal (height + 1) (sum (trees.map summary)) (trees.map summary) trees) := by
  obtain ⟨first, rest, rfl⟩ := exists_cons_of_ne_nil some
  have level := (children first (by simp)).level
  unfold fromChildTrees
  rw [ArrayVec.collect_of_le (by simpa using bound), ArrayVec.collect_of_le bound]
  simp [level]

theorem pushTreeNode_spec [LawfulSummary S] {other : Node T S} (wf : self.WF build) (otherWF : other.WF build)
    (nonempty : other.toList ≠ []) (level : other.height ≤ self.height) :
    ∃ result, pushTreeNode build self other = some result ∧ result.WF build ∧
      result.toList = self.toList ++ other.toList := by
  obtain ⟨⟨tree, split⟩, result, pushed⟩ := pushTreeRecursive_spec wf otherWF nonempty level
  have items := pushed.toList
  simp only [pushTreeNode, result, bind_eq_bind, bind_some]
  cases split with
  | none => exact ⟨tree, rfl, pushed.self.wf, by simpa using items⟩
  | some splitTree =>
    have children : ∀ child ∈ [tree, splitTree], Child build self.height child := by
      intro child member
      simp only [mem_cons, not_mem_nil, or_false] at member
      rcases member with rfl | rfl
      · exact pushed.self
      · exact pushed.split _ rfl
    have capacity := build.four_le_capacity
    have bound : [tree, splitTree].length ≤ build.capacity := by
      simp only [length_cons, length_nil]
      omega
    refine ⟨_, fromChildTrees_spec (by simp) bound children, .of_children (by simp) bound children, ?_⟩
    simpa [toList_internal] using items

theorem pushTree_spec [LawfulSummary S] {other : Node T S} (wf : self.WF build) (otherWF : other.WF build) :
    ∃ result, pushTree build self other = some result ∧ result.WF build ∧
      result.toList = self.toList ++ other.toList := by
  induction otherWF generalizing self with
  | @leaf items bound =>
    rw [pushTree]
    by_cases empty : items = []
    · subst empty
      exact ⟨self, rfl, wf, by simp⟩
    · have notEmpty : items.isEmpty = false := by simpa using empty
      simp only [notEmpty]
      exact pushTreeNode_spec wf (.leaf bound) (by simpa using empty) (Nat.zero_le _)
  | @internal height childTrees some bound childWF childLevel childNonempty ih =>
    rw [pushTree]
    by_cases lower : self.height < height + 1
    · have pushes : ∀ (trees : List (Node T S)) (start : Node T S), (∀ tree ∈ trees, tree ∈ childTrees) →
          start.WF build → ∃ result, pushTrees build start trees = Option.some result ∧ result.WF build ∧
            result.toList = start.toList ++ trees.flatMap toList := by
        intro trees
        induction trees with
        | nil => exact fun start _ startWF => ⟨start, rfl, startWF, by simp⟩
        | cons tree rest restIH =>
          intro start members startWF
          obtain ⟨next, pushed, nextWF, nextItems⟩ := ih tree (members tree (by simp)) startWF
          obtain ⟨result, rested, resultWF, resultItems⟩ :=
            restIH next (fun tree member => members tree (by simp [member])) nextWF
          refine ⟨result, ?_, resultWF, ?_⟩
          · simp [pushTrees, pushed, rested]
          · simp [resultItems, nextItems]
      simp only [lower, ↓reduceIte, toList_internal]
      exact pushes childTrees self (fun _ member => member) wf
    · simp only [lower, ↓reduceIte]
      refine pushTreeNode_spec wf (.internal some bound childWF childLevel childNonempty) ?_ (Nat.not_lt.mp lower)
      rw [toList_internal]
      exact toList_ne_nil_of_children some childNonempty

theorem push_spec [LawfulSummary S] (wf : self.WF build) (item : T) :
    ∃ result, push build self item = some result ∧ result.WF build ∧ result.toList = self.toList ++ [item] := by
  have capacity := build.four_le_capacity
  have children : ∀ tree ∈ [leaf (Item.summary item) [item] [Item.summary item]], Child build 0 tree := by
    intro tree member
    rw [List.mem_singleton.mp member]
    simpa using @child_of_items T S _ _ _ build [item] (by simp)
      (by simp only [length_singleton]; omega)
  have bound : [leaf (Item.summary item) [item] [Item.summary item]].length ≤ build.capacity := by
    simp only [length_singleton]
    omega
  simp only [push, fromChildTrees_spec (by simp) bound children, bind_eq_bind, bind_some]
  simpa [toList_internal] using pushTree_spec wf (.of_children (by simp) bound children)

theorem extendLoop_spec [LawfulSummary S] (items : List T) (wf : self.WF build)
    (filling : Option (S × List T × List S)) (filled : List T) (filledBound : filled.length ≤ build.capacity)
    (exact : filling.getD (0, [], []) = (sum (filled.map Item.summary), filled, filled.map Item.summary)) :
    ∃ result, extendLoop build items self filling = some result ∧ result.WF build ∧
      result.toList = self.toList ++ filled ++ items := by
  have capacity := build.four_le_capacity
  induction items generalizing self filling filled with
  | nil =>
    cases filling with
    | none =>
      have none : filled = [] := by simpa using (congrArg (·.2.1) exact).symm
      exact ⟨self, rfl, wf, by simp [none]⟩
    | some leaf =>
      simp only [getD_some] at exact
      subst exact
      obtain ⟨result, pushed, resultWF, resultItems⟩ := pushTree_spec wf (.leaf filledBound)
      exact ⟨result, pushed, resultWF, by simp [resultItems]⟩
  | cons item rest ih =>
    have step : ∀ (start : Node T S) (before : List T), start.WF build → before.length < build.capacity →
        ∃ result, (do
          let items ← ArrayVec.push build.capacity before item
          let itemSummaries ← ArrayVec.push build.capacity (before.map Item.summary) (Item.summary item)
          extendLoop build rest start
            (some (sum (before.map Item.summary) + Item.summary item, items, itemSummaries))) = some result ∧
          result.WF build ∧ result.toList = start.toList ++ before ++ item :: rest := by
      intro start before startWF room
      rw [ArrayVec.push_of_lt room, ArrayVec.push_of_lt (by simpa using room)]
      obtain ⟨result, rested, resultWF, resultItems⟩ := ih startWF
        (some (sum (before.map Item.summary) + Item.summary item, before ++ [item],
          before.map Item.summary ++ [Item.summary item])) (before ++ [item])
        (by simp only [length_append, length_singleton]; omega) (by simp [sum_append])
      exact ⟨result, rested, resultWF, by simp [resultItems]⟩
    cases filling with
    | none =>
      have none : filled = [] := by simpa using (congrArg (·.2.1) exact).symm
      subst none
      simpa [extendLoop] using step self [] wf (by simp only [length_nil]; omega)
    | some leaf =>
      simp only [getD_some] at exact
      subst exact
      by_cases full : filled.length = build.capacity
      · obtain ⟨next, pushed, nextWF, nextItems⟩ := pushTree_spec wf (.leaf filledBound)
        have rest := step next [] nextWF (by simp only [length_nil]; omega)
        simpa [extendLoop, full, pushed, nextItems] using rest
      · simpa [extendLoop, full] using step self filled wf (by omega)

theorem extend_spec [LawfulSummary S] (wf : self.WF build) (items : List T) :
    ∃ result, extend build self items = some result ∧ result.WF build ∧ result.toList = self.toList ++ items := by
  simpa [extend] using extendLoop_spec items wf none [] (Nat.zero_le _) rfl

theorem updateLastChild_append (f : T → T) (init : List (Node T S)) (last : Node T S) :
    updateLastChild f (init ++ [last]) =
      (updateLastLeafRecursive f last).map fun (tree, summary) => (init ++ [tree], summary) := by
  induction init with
  | nil => cases h : updateLastLeafRecursive f last <;> simp [updateLastChild, h]
  | cons first init ih =>
    cases init with
    | nil =>
      simp only [cons_append, nil_append, updateLastChild]
      cases updateLastLeafRecursive f last <;> rfl
    | cons next init =>
      simp only [cons_append] at ih
      simp only [cons_append, updateLastChild, ih]
      cases updateLastLeafRecursive f last <;> rfl

theorem updateLastLeafRecursive_spec (f : T → T) (wf : tree.WF build) (nonempty : tree.toList ≠ []) :
    ∃ result, updateLastLeafRecursive f tree = some (result, result.summary) ∧ Child build tree.height result ∧
      result.toList = tree.toList.modifyLast f := by
  induction wf with
  | @leaf items bound =>
    obtain ⟨init, last, rfl⟩ := (eq_nil_or_concat items).resolve_left (by simpa using nonempty)
    simp only [concat_eq_append] at *
    have updated := @child_of_items T S _ _ _ build (init ++ [f last]) (by simp) (by simpa using bound)
    refine ⟨_, ?_, updated, ?_⟩
    · simp [updateLastLeafRecursive]
    · simp [modifyLast_concat]
  | @internal height childTrees some bound childWF childLevel childNonempty ih =>
    obtain ⟨init, last, rfl⟩ := (eq_nil_or_concat childTrees).resolve_left some
    simp only [concat_eq_append] at *
    obtain ⟨tree, updated, child, items⟩ := ih last (by simp) (childNonempty last (by simp))
    rw [childLevel last (by simp)] at child
    have children : ∀ member ∈ init ++ [tree], Child build height member := by
      intro member isMember
      rcases List.mem_append.mp isMember with isMember | isMember
      · have earlier : member ∈ init ++ [last] := by simp [isMember]
        exact ⟨childWF member earlier, childLevel member earlier, childNonempty member earlier⟩
      · rw [List.mem_singleton.mp isMember]
        exact child
    have above := child_of_children (by simp) (by simpa using bound) children
    refine ⟨_, ?_, above, ?_⟩
    · simp [updateLastLeafRecursive, updateLastChild_append, updated]
    · simp only [toList_internal, flatMap_append, flatMap_singleton, items]
      exact (modifyLast_append_of_right_ne_nil f _ _ (childNonempty last (by simp))).symm

theorem WF.isEmpty_iff (wf : tree.WF build) :
    tree.isEmpty = true ↔ tree.toList = [] := by
  cases wf with
  | leaf bound => simp [isEmpty]
  | internal some bound wf level nonempty =>
    simpa [isEmpty, toList_internal] using toList_ne_nil_of_children some nonempty

theorem updateLast_spec (f : T → T) (wf : tree.WF build) :
    ∃ result, updateLast tree f = some result ∧ result.WF build ∧ result.toList = tree.toList.modifyLast f := by
  unfold updateLast
  by_cases empty : tree.toList = []
  · exact ⟨tree, by simp [wf.isEmpty_iff.mpr empty], wf, by rw [empty]; rfl⟩
  · obtain ⟨result, updated, child, items⟩ := updateLastLeafRecursive_spec f wf empty
    have notEmpty : ¬ tree.isEmpty = true := fun isEmpty => empty (wf.isEmpty_iff.mp isEmpty)
    exact ⟨result, by simp [notEmpty, updated], child.wf, items⟩

end Node

inductive Op (build : Build) (T : Type u) {S : Type u} [Add S] [Zero S] [Item T S] where
  | push (item : T)
  | pushTree (other : Tree build T)
  | extend (items : List T)
  | updateLast (f : T → T)

def Op.apply {build : Build} (node : Node T S) : Op build T → Option (Node T S)
  | push item => node.push build item
  | pushTree other => node.pushTree build other.node
  | extend items => node.extend build items
  | updateLast f => node.updateLast f

def Op.onList {build : Build} (items : List T) : Op build T → List T
  | push item => items ++ [item]
  | pushTree other => items ++ other.node.toList
  | extend others => items ++ others
  | updateLast f => items.modifyLast f

theorem Op.apply_spec [LawfulSummary S] {build : Build} {node : Node T S} (wf : node.WF build) (op : Op build T) :
    ∃ result, op.apply node = some result ∧ result.WF build ∧ result.toList = op.onList node.toList := by
  cases op with
  | push item => exact Node.push_spec wf item
  | pushTree other => exact Node.pushTree_spec wf other.wf
  | extend items => exact Node.extend_spec wf items
  | updateLast f => exact Node.updateLast_spec f wf

theorem run_spec [LawfulSummary S] {build : Build} (ops : List (Op build T)) {node : Node T S} (wf : node.WF build) :
    ∃ result, ops.foldlM Op.apply node = some result ∧ result.WF build ∧
      result.toList = ops.foldl Op.onList node.toList := by
  induction ops generalizing node with
  | nil => exact ⟨node, rfl, wf, rfl⟩
  | cons op rest ih =>
    obtain ⟨next, applied, nextWF, nextItems⟩ := op.apply_spec wf
    obtain ⟨result, ran, resultWF, resultItems⟩ := ih nextWF
    exact ⟨result, by simp [applied, ran], resultWF, by simp [resultItems, nextItems]⟩

end Warp.SumTree
