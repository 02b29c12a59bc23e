import Warp.SumTree.Navigation

namespace Warp.SumTree

open List

universe u

variable {T S D U : Type u} [Add S] [Zero S] [Item T S] [LawfulSummary S] [Dimension D S] [LawfulDimension D S]
  [Dimension U S] [LawfulDimension U S]

namespace Cursor

omit [Add S] [Zero S] [Item T S] [LawfulSummary S] [LawfulDimension D S] [LawfulDimension U S] in
theorem descendToLastItemOfLast_append (self : Cursor T S D U) (init : List (Node T S)) (last : Node T S) :
    descendToLastItemOfLast self (init ++ [last]) = descendToLastItem self last := by
  induction init with
  | nil => rfl
  | cons tree init ih =>
    cases init with
    | nil => rfl
    | cons next init => exact ih

theorem descendToLastItem_spec {build : Build} {root node : Node T S} (wf : node.WF build) (filled : node.toList ≠ [])
    {self : Cursor T S D U} (path : Path root node self.stack)
    (room : self.stack.length + node.height < stackCapacity) :
    ∃ stack init item,
      descendToLastItem (self.spanning (itemsBefore self.stack)) node =
        some (({ self with stack, didSeek := true } : Cursor T S D U).spanning (itemsBefore self.stack ++ init)) ∧
      node.toList = init ++ [item] ∧ OnItem root stack item ∧
      itemsBefore stack = itemsBefore self.stack ++ init ∧
      (AllCached self.stack → AllCached stack) := by
  induction wf generalizing self with
  | @leaf items bound =>
    rw [Node.toList_leaf] at filled
    obtain ⟨init, item, rfl⟩ := (eq_nil_or_concat items).resolve_left filled
    simp only [concat_eq_append] at *
    have below : self.stack.length < stackCapacity := by simpa using room
    have at_index : (init ++ [item])[init.length]? = some item := by simp
    have before : itemsBefore (⟨.leaf (sum ((init ++ [item]).map Item.summary)) (init ++ [item])
        ((init ++ [item]).map Item.summary), init.length, dimensionOf D (itemsBefore self.stack ++ init),
          dimensionOf U (itemsBefore self.stack ++ init)⟩ :: self.stack : List (StackEntry T S D U)) =
        itemsBefore self.stack ++ init := by
      simp [StackEntry.itemsBefore, Node.parts]
    refine ⟨_, init, item, ?_, by simp, .intro path at_index, before, ?_⟩
    · have summaries : ((init ++ [item]).map Item.summary).take init.length = init.map Item.summary := by simp
      have lastIndex : ((init ++ [item]).map Item.summary).length - 1 = init.length := by simp
      have folded := spanning_addSummaries_items ({ self with didSeek := true } : Cursor T S D U) (itemsBefore self.stack) init
      rw [descendToLastItem]
      simp only [lastIndex, summaries]
      refine (congrArg (fun next : Cursor T S D U => next.push _ _) folded).trans ?_
      exact push_of_lt (({ self with didSeek := true } : Cursor T S D U).spanning _) below _ _
    · exact fun cached => ⟨⟨congrArg _ before.symm, congrArg _ before.symm⟩, cached⟩
  | @internal height childTrees some bound wf level nonempty ih =>
    obtain ⟨init, last, rfl⟩ := (eq_nil_or_concat childTrees).resolve_left some
    simp only [concat_eq_append] at *
    have below : self.stack.length < stackCapacity := Nat.lt_of_le_of_lt (Nat.le_add_right _ _) room
    have member : last ∈ init ++ [last] := by simp
    have at_index : (init ++ [last])[init.length]? = Option.some last := by simp
    have summaries : init.map Node.summary =
        (init.map Node.toList).map fun items => sum (items.map Item.summary) := by
      rw [List.map_map]
      exact map_congr_left fun tree inInit => (wf tree (mem_append_left _ inInit)).summary_eq
    let entry : StackEntry T S D U :=
      ⟨.internal (height + 1) (sum ((init ++ [last]).map Node.summary)) ((init ++ [last]).map Node.summary)
        (init ++ [last]), init.length, dimensionOf D (itemsBefore self.stack ++ init.flatMap Node.toList),
        dimensionOf U (itemsBefore self.stack ++ init.flatMap Node.toList)⟩
    have before : itemsBefore (entry :: self.stack) = itemsBefore self.stack ++ init.flatMap Node.toList := by
      simp [entry, StackEntry.itemsBefore, Node.parts, flatMap_def]
    have roomBelow : (entry :: self.stack).length + last.height < stackCapacity := by
      rw [level last member, length_cons]
      rw [Node.height_internal] at room
      omega
    obtain ⟨stack, lastInit, item, descended, items, on, place, cached⟩ :=
      @ih last member (nonempty last member) { self with stack := entry :: self.stack, didSeek := true }
        (.child path at_index) roomBelow
    simp only [before] at descended place
    refine ⟨stack, init.flatMap Node.toList ++ lastInit, item, ?_, ?_, on, by simpa using place, ?_⟩
    · have filled : ∀ part ∈ init.map Node.toList, part ≠ [] := by
        intro part isPart
        obtain ⟨tree, inInit, rfl⟩ := List.mem_map.mp isPart
        exact nonempty tree (mem_append_left _ inInit)
      have folded := spanning_addSummaries ({ self with didSeek := true } : Cursor T S D U) (itemsBefore self.stack) filled
      rw [← summaries, ← flatMap_def] at folded
      have pushed := push_of_lt (({ self with didSeek := true } : Cursor T S D U).spanning
        (itemsBefore self.stack ++ init.flatMap Node.toList)) below entry.tree init.length
      simp only [entry] at pushed
      have counts : ¬ (((init ++ [last]).map Node.summary).length = 0 ∨ (init ++ [last]).length = 0) := by simp
      have others : ((init ++ [last]).map Node.summary).dropLast = init.map Node.summary := by
        simp [map_append]
      have lastIndex : (init ++ [last]).length - 1 = init.length := by simp
      rw [descendToLastItem]
      simp only [counts, ↓reduceIte, others, lastIndex, descendToLastItemOfLast_append]
      refine (congrArg (fun next : Cursor T S D U => next.push _ _ >>= _) folded).trans ?_
      refine (congrArg (fun next : Option (Cursor T S D U) => next >>= _) pushed).trans ?_
      rw [← append_assoc]
      exact descended
    · simp [Node.toList_internal, items]
    · intro stackCached
      exact cached ⟨⟨congrArg _ before.symm, congrArg _ before.symm⟩, stackCached⟩

section Restart

omit [Add S] [Zero S] [LawfulSummary S] [LawfulDimension D S] [LawfulDimension U S]

/-- What `prev` takes the dimensions from, the last entry of a stack, caches the right ones. -/
def LastCached : List (StackEntry T S D U) → Prop
  | [] => True
  | parent :: rest => Cached parent rest

/-- The entry below the one in which `prev` steps back caches the right dimensions. -/
def RestartCached : List (StackEntry T S D U) → Prop
  | [] => True
  | entry :: stack => if entry.index > 0 then LastCached stack else RestartCached stack

variable {stack : List (StackEntry T S D U)} (cached : LastCached stack) (self : Cursor T S D U) (index : ℕ)
  (seekDimension : D) (sumDimension : U)

include cached

theorem prevLoop_internal (height : ℕ) (summary : S) (childSummaries : List S) (childTrees : List (Node T S)) :
    prevLoop self (⟨.internal height summary childSummaries childTrees, index + 1, seekDimension, sumDimension⟩ :: stack) =
      (sliceTo childSummaries index).bind fun before =>
        ((before.foldl addSummary (({ self with stack } : Cursor T S D U).spanning (itemsBefore stack))).push
          (.internal height summary childSummaries childTrees) index).bind fun next =>
            childTrees[index]?.bind next.descendToLastItem := by
  cases stack with
  | nil => rfl
  | cons parent rest =>
    have seek : parent.seekDimension = dimensionOf D (itemsBefore (parent :: rest)) := cached.1
    have sum : parent.sumDimension = dimensionOf U (itemsBefore (parent :: rest)) := cached.2
    simp only [prevLoop, seek, sum]
    rfl

theorem prevLoop_leaf (summary : S) (items : List T) (itemSummaries : List S) :
    prevLoop self (⟨.leaf summary items itemSummaries, index + 1, seekDimension, sumDimension⟩ :: stack) =
      (sliceTo itemSummaries index).bind fun before =>
        (before.foldl addSummary (({ self with stack } : Cursor T S D U).spanning (itemsBefore stack))).push
          (.leaf summary items itemSummaries) index := by
  cases stack with
  | nil => rfl
  | cons parent rest =>
    have seek : parent.seekDimension = dimensionOf D (itemsBefore (parent :: rest)) := cached.1
    have sum : parent.sumDimension = dimensionOf U (itemsBefore (parent :: rest)) := cached.2
    simp only [prevLoop, seek, sum]
    rfl

end Restart

/-- Where `prev` ends that starts after the items `before`: before the first item, or on the last of them. -/
inductive Retreats (root : Node T S) (entries : List (StackEntry T S D U)) (self : Cursor T S D U)
    (before : List T) : Option (Cursor T S D U) → Prop
  | off (first : before = []) : Retreats root entries self before (some (({ self with stack := [] } : Cursor T S D U).spanning []))
  | on {stack : List (StackEntry T S D U)} {init : List T} {item : T} (last : before = init ++ [item])
    (on : OnItem root stack item) (place : itemsBefore stack = init) (cached : AllCached entries → AllCached stack) :
    Retreats root entries self before (some (({ self with stack } : Cursor T S D U).spanning init))

variable {self : Cursor T S D U}

omit [Add S] [Zero S] [LawfulSummary S] [LawfulDimension D S] [LawfulDimension U S] in
theorem Retreats.weaken {root : Node T S} {entries others : List (StackEntry T S D U)} {before : List T}
    {result : Option (Cursor T S D U)} (retreats : Retreats root entries self before result)
    (cached : AllCached others → AllCached entries) : Retreats root others self before result := by
  cases retreats with
  | off first => exact .off first
  | on last on place stackCached => exact .on last on place fun all => stackCached (cached all)

theorem prevLoop_spec {build : Build} {root node : Node T S} (rootWF : root.WF build)
    (low : root.height < stackCapacity) {entries : List (StackEntry T S D U)} (path : Path root node entries)
    (restart : RestartCached entries) (didSeek : self.didSeek = true) :
    Retreats root entries self (itemsBefore entries) (prevLoop (self.spanning (itemsBefore entries)) entries) := by
  induction path with
  | root => exact .off rfl
  | @child height summary childSummaries childTrees stack index tree seekDimension sumDimension above at_index ih =>
    cases above.wf rootWF with
    | @internal height _ some bound wf level nonempty =>
    cases index with
    | zero =>
      have before : itemsBefore (⟨.internal (height + 1) (sum (childTrees.map Node.summary))
          (childTrees.map Node.summary) childTrees, 0, seekDimension, sumDimension⟩ :: stack) = itemsBefore stack := by
        simp [StackEntry.itemsBefore]
      have above : Retreats root stack self (itemsBefore stack) (prevLoop (self.spanning (itemsBefore stack)) stack) :=
        ih restart
      rw [before]
      exact above.weaken fun cached => cached.2
    | succ index =>
      have last : LastCached stack := restart
      have inside : index + 1 < childTrees.length := (List.getElem?_eq_some_iff.mp at_index).1
      have bound : index ≤ childTrees.length := by omega
      obtain ⟨prev, prevAt⟩ : ∃ prev, childTrees[index]? = Option.some prev :=
        ⟨_, List.getElem?_eq_getElem (by omega)⟩
      have member : prev ∈ childTrees := mem_of_getElem? prevAt
      have summaries : (childTrees.take index).map Node.summary =
          ((childTrees.take index).map Node.toList).map fun items => sum (items.map Item.summary) := by
        rw [List.map_map]
        exact map_congr_left fun tree isTree => (wf tree (mem_of_mem_take isTree)).summary_eq
      have slices : sliceTo (childTrees.map Node.summary) index =
          Option.some ((childTrees.take index).map Node.summary) := by
        simp [sliceTo, bound, map_take]
      have filled : ∀ part ∈ (childTrees.take index).map Node.toList, part ≠ [] := by
        intro part isPart
        obtain ⟨tree, isTree, rfl⟩ := List.mem_map.mp isPart
        exact nonempty tree (mem_of_mem_take isTree)
      have folded := spanning_addSummaries ({ self with stack } : Cursor T S D U) (itemsBefore stack) filled
      rw [← summaries, ← flatMap_def] at folded
      let entry : StackEntry T S D U :=
        ⟨.internal (height + 1) (sum (childTrees.map Node.summary)) (childTrees.map Node.summary) childTrees, index,
          dimensionOf D (itemsBefore stack ++ (childTrees.take index).flatMap Node.toList),
          dimensionOf U (itemsBefore stack ++ (childTrees.take index).flatMap Node.toList)⟩
      have before : itemsBefore (entry :: stack) = itemsBefore stack ++ (childTrees.take index).flatMap Node.toList := by
        simp [entry, StackEntry.itemsBefore, Node.parts, ← map_take, flatMap_def]
      have below : Path root prev (entry :: stack) := .child above prevAt
      have depth := below.depth rootWF
      have room : stack.length < stackCapacity := by
        have aboveDepth := above.depth rootWF
        omega
      have pushed := push_of_lt (({ self with stack } : Cursor T S D U).spanning
        (itemsBefore stack ++ (childTrees.take index).flatMap Node.toList)) room entry.tree index
      simp only [entry] at pushed
      obtain ⟨final, init, item, descended, items, on, place, cached⟩ :=
        @descendToLastItem_spec T S D U _ _ _ _ _ _ _ _ _ _ _ (wf prev member) (nonempty prev member)
          { self with stack := entry :: stack } below (depth ▸ low)
      simp only [before] at descended place
      have reached : childTrees.take (index + 1) = childTrees.take index ++ [prev] := by
        rw [take_add_one, prevAt]
        rfl
      have stepped (left : List T) : prevLoop (self.spanning left) (⟨.internal (height + 1)
          (sum (childTrees.map Node.summary)) (childTrees.map Node.summary) childTrees, index + 1, seekDimension,
            sumDimension⟩ :: stack) =
          Option.some (({ self with stack := final } : Cursor T S D U).spanning
            (itemsBefore stack ++ (childTrees.take index).flatMap Node.toList ++ init)) := by
        refine (prevLoop_internal last _ index _ _ _ _ _ _).trans ?_
        rw [slices, Option.bind_some]
        refine (congrArg (fun next : Cursor T S D U => (next.push _ index).bind _) folded).trans ?_
        refine (congrArg (fun next : Option (Cursor T S D U) => next.bind _) pushed).trans ?_
        rw [Option.bind_some, prevAt, Option.bind_some]
        refine descended.trans ?_
        rw [← didSeek]
      rw [stepped]
      refine .on ?_ on place ?_
      · simp [StackEntry.itemsBefore, Node.parts, ← map_take, ← flatMap_def, reached, items]
      · exact fun all => cached ⟨⟨congrArg _ before.symm, congrArg _ before.symm⟩, all.2⟩

theorem prevLoop_item {build : Build} {root : Node T S} (rootWF : root.WF build) (low : root.height < stackCapacity)
    {entries : List (StackEntry T S D U)} {item : T} (on : OnItem root entries item) (restart : RestartCached entries)
    {self : Cursor T S D U} (didSeek : self.didSeek = true) :
    Retreats root entries self (itemsBefore entries) (prevLoop (self.spanning (itemsBefore entries)) entries) := by
  cases on with
  | @intro summary items itemSummaries stack index item seekDimension sumDimension above at_index =>
    cases above.wf rootWF with
    | leaf bound =>
    cases index with
    | zero =>
      have before : itemsBefore (⟨.leaf (sum (items.map Item.summary)) items (items.map Item.summary), 0, seekDimension,
          sumDimension⟩ :: stack) = itemsBefore stack := by
        simp [StackEntry.itemsBefore]
      have retreats := prevLoop_spec rootWF low above restart didSeek
      rw [before]
      exact retreats.weaken fun cached => cached.2
    | succ index =>
      have last : LastCached stack := restart
      have inside : index + 1 < items.length := (List.getElem?_eq_some_iff.mp at_index).1
      have bound : index ≤ items.length := by omega
      obtain ⟨prev, prevAt⟩ : ∃ prev, items[index]? = some prev := ⟨_, List.getElem?_eq_getElem (by omega)⟩
      have slices : sliceTo (items.map Item.summary) index = some ((items.take index).map Item.summary) := by
        simp [sliceTo, bound, map_take]
      have folded := spanning_addSummaries_items ({ self with stack } : Cursor T S D U) (itemsBefore stack)
        (items.take index)
      have room : stack.length < stackCapacity := by
        have depth := above.depth rootWF
        omega
      have pushed := push_of_lt (({ self with stack } : Cursor T S D U).spanning
        (itemsBefore stack ++ items.take index)) room
          (.leaf (sum (items.map Item.summary)) items (items.map Item.summary)) index
      have before : itemsBefore (⟨.leaf (sum (items.map Item.summary)) items (items.map Item.summary), index,
          dimensionOf D (itemsBefore stack ++ items.take index), dimensionOf U (itemsBefore stack ++ items.take index)⟩ ::
            stack) = itemsBefore stack ++ items.take index := by
        simp [StackEntry.itemsBefore, Node.parts, ← map_take]
      have reached : items.take (index + 1) = items.take index ++ [prev] := by
        rw [take_add_one, prevAt]
        rfl
      have stepped (left : List T) : prevLoop (self.spanning left) (⟨.leaf (sum (items.map Item.summary)) items
          (items.map Item.summary), index + 1, seekDimension, sumDimension⟩ :: stack) =
          (({ self with stack } : Cursor T S D U).spanning (itemsBefore stack ++ items.take index)).push
            (.leaf (sum (items.map Item.summary)) items (items.map Item.summary)) index := by
        refine (prevLoop_leaf last _ index _ _ _ _ _).trans ?_
        rw [slices, Option.bind_some]
        exact congrArg (fun next : Cursor T S D U => next.push _ index) folded
      rw [stepped, pushed]
      refine .on ?_ (.intro above prevAt) before ?_
      · simp [StackEntry.itemsBefore, Node.parts, ← map_take, reached]
      · exact fun all => ⟨⟨congrArg _ before.symm, congrArg _ before.symm⟩, all.2⟩

end Cursor

end Warp.SumTree
