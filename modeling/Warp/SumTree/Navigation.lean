import Warp.SumTree.Seek

namespace Warp.SumTree

open List

universe u

variable {T S D U : Type u} [Add S] [Zero S] [Item T S] [LawfulSummary S] [Dimension D S] [LawfulDimension D S]
  [Dimension U S] [LawfulDimension U S]

def FilterExact (T : Type u) {S : Type u} [Add S] [Zero S] [Item T S] (filterNode : S → Bool) : Prop :=
  ∀ items : List T, items ≠ [] →
    filterNode (sum (items.map Item.summary)) = items.any fun item => filterNode (Item.summary item)

omit [LawfulSummary S] in
theorem filterExact_true : FilterExact T fun _ : S => true := by
  intro items nonempty
  obtain ⟨first, rest, rfl⟩ := exists_cons_of_ne_nil nonempty
  simp

omit [LawfulSummary S] in
theorem FilterExact.rejected {filterNode : S → Bool} (exact : FilterExact T filterNode) {E : Type u} {part : E → List T}
    {children : List E} (nonempty : ∀ child ∈ children, part child ≠ [])
    (rejects : ∀ child ∈ children, filterNode (sum ((part child).map Item.summary)) = false) :
    ∀ item ∈ children.flatMap part, filterNode (Item.summary item) = false := by
  intro item member
  obtain ⟨child, isChild, inPart⟩ := List.mem_flatMap.mp member
  have rejected := rejects child isChild
  rw [exact (part child) (nonempty child isChild)] at rejected
  simpa using List.any_eq_false.mp rejected item inPart

namespace Cursor

theorem skipFiltered_spec {E : Type u} {part : E → List T} (filterNode : S → Bool) {children : List E}
    (nonempty : ∀ child ∈ children, part child ≠ []) (self : Cursor T S D U) (left : List T) (index : ℕ) :
    ∃ skipped rest, children = skipped ++ rest ∧
      (∀ child ∈ skipped, filterNode (sum ((part child).map Item.summary)) = false) ∧
      skipFiltered filterNode (children.map fun child => sum ((part child).map Item.summary)) index (self.spanning left) =
        (self.spanning (left ++ skipped.flatMap part), if rest = [] then none else some (index + skipped.length)) ∧
      ∀ child more, rest = child :: more → filterNode (sum ((part child).map Item.summary)) = true := by
  induction children generalizing left index with
  | nil => exact ⟨[], [], rfl, by simp, by simp [skipFiltered], by simp⟩
  | cons child children ih =>
    cases accepts : filterNode (sum ((part child).map Item.summary)) with
    | true =>
      refine ⟨[], child :: children, rfl, by simp, by simp [skipFiltered, accepts], ?_⟩
      intro first more same
      cases same
      exact accepts
    | false =>
      obtain ⟨skipped, rest, split, rejects, ran, found⟩ :=
        ih (fun child member => nonempty child (mem_cons_of_mem _ member)) (left ++ part child) (index + 1)
      refine ⟨child :: skipped, rest, by simp [split], by simpa [accepts] using rejects, ?_, found⟩
      have first := nonempty child mem_cons_self
      simp [skipFiltered, accepts, spanning_addSummary _ _ first, ran, Nat.add_assoc, Nat.add_comm 1]

omit [Add S] [Zero S] [Item T S] [LawfulSummary S] [LawfulDimension D S] [LawfulDimension U S] in
theorem descendToFirstItemOfChild_eq (filterNode : S → Bool) (self : Cursor T S D U) (trees : List (Node T S))
    (index : ℕ) :
    descendToFirstItemOfChild filterNode self trees index = trees[index]?.bind (descendToFirstItem filterNode self) := by
  induction trees generalizing index with
  | nil => rfl
  | cons tree trees ih =>
    cases index with
    | zero => rfl
    | succ index => simpa [descendToFirstItemOfChild] using ih index

section Equations

variable {filterNode : S → Bool} {self next : Cursor T S D U} {index : Option ℕ}

omit [Add S] [Zero S] [Item T S] [LawfulSummary S] [LawfulDimension D S] [LawfulDimension U S]

theorem descendToFirstItem_leaf {summary : S} {items : List T} {itemSummaries : List S}
    (ran : skipFiltered filterNode itemSummaries 0 { self with didSeek := true } = (next, index)) :
    descendToFirstItem filterNode self (.leaf summary items itemSummaries) =
      index.elim (some next) (next.push (.leaf summary items itemSummaries)) := by
  rw [descendToFirstItem, ran]
  cases index <;> rfl

theorem descendToFirstItem_internal {height : ℕ} {summary : S} {childSummaries : List S}
    {childTrees : List (Node T S)}
    (ran : skipFiltered filterNode childSummaries 0 { self with didSeek := true } = (next, index)) :
    descendToFirstItem filterNode self (.internal height summary childSummaries childTrees) =
      index.elim (some next) fun index =>
        (next.push (.internal height summary childSummaries childTrees) index).bind fun below =>
          childTrees[index]?.bind (descendToFirstItem filterNode below) := by
  rw [descendToFirstItem, ran]
  cases index with
  | none => rfl
  | some index =>
    simp only [descendToFirstItemOfChild_eq]
    rfl

variable {result : StackEntry T S D U} {stack : List (StackEntry T S D U)}

theorem nextLoop_internal {height index : ℕ} {summary : S} {childSummaries : List S} {childTrees : List (Node T S)}
    {seekDimension : D} {sumDimension : U}
    (ran : nextChild filterNode self ⟨.internal height summary childSummaries childTrees, index, seekDimension, sumDimension⟩ (childSummaries.drop index) = (next, result)) :
    nextLoop filterNode self
        (⟨.internal height summary childSummaries childTrees, index, seekDimension, sumDimension⟩ :: stack) =
      childTrees[result.index]?.elim (nextLoop filterNode next stack) fun subtree =>
        (descendToFirstItem filterNode { next with stack := result :: stack } subtree).map fun self =>
          { self with atEnd := self.stack.isEmpty } := by
  simp only [nextLoop, ran]
  cases childTrees[result.index]? with
  | none => rfl
  | some subtree => cases h : descendToFirstItem filterNode { next with stack := result :: stack } subtree <;> simp [h]

theorem nextLoop_leaf {index : ℕ} {summary : S} {items : List T} {itemSummaries : List S} {seekDimension : D}
    {sumDimension : U} {returned : Bool}
    (ran : nextItem filterNode self ⟨.leaf summary items itemSummaries, index, seekDimension, sumDimension⟩ (itemSummaries.drop index) = some (next, result, returned)) :
    nextLoop filterNode self (⟨.leaf summary items itemSummaries, index, seekDimension, sumDimension⟩ :: stack) =
      if returned then some { next with stack := result :: stack } else nextLoop filterNode next stack := by
  simp only [nextLoop, ran]
  rfl

end Equations

/-- The cursor rests on the first accepted item after `skipped`, or it found none. -/
structure Finds (root : Node T S) (filterNode : S → Bool) (stack : List (StackEntry T S D U)) (before : List T)
    (item : T) : Prop where
  on : OnItem root stack item
  before : itemsBefore stack = before
  accepts : filterNode (Item.summary item) = true

theorem descendToFirstItem_spec {build : Build} {filterNode : S → Bool} (exact : FilterExact T filterNode)
    {root node : Node T S} (wf : node.WF build) {self : Cursor T S D U} (path : Path root node self.stack)
    (room : self.stack.length + node.height < stackCapacity) :
    ∃ stack skipped,
      descendToFirstItem filterNode (self.spanning (itemsBefore self.stack)) node =
        some (({ self with stack, didSeek := true } : Cursor T S D U).spanning (itemsBefore self.stack ++ skipped)) ∧
      (∀ item ∈ skipped, filterNode (Item.summary item) = false) ∧
      (AllCached self.stack → AllCached stack) ∧
      ((∃ item, Finds root filterNode stack (itemsBefore self.stack ++ skipped) item) ∨
        stack = self.stack ∧ skipped = node.toList) := by
  induction wf generalizing self with
  | @leaf items bound =>
    have below : self.stack.length < stackCapacity := by simpa using room
    obtain ⟨skipped, rest, split, rejects, ran, found⟩ :=
      @skipFiltered_spec T S D U _ _ _ _ _ _ _ _ T (fun item => [item]) filterNode items (by simp)
        { self with didSeek := true } (itemsBefore self.stack) 0
    have skippedRejected := exact.rejected (by simp) rejects
    simp only [map_cons, map_nil, sum_singleton, flatMap_singleton'] at ran found skippedRejected
    cases rest with
    | nil =>
      refine ⟨self.stack, skipped, ?_, skippedRejected, id, .inr ⟨rfl, by simp [split]⟩⟩
      exact @descendToFirstItem_leaf T S D U _ _ _ (self.spanning _) _ _ _ _ _ ran
    | cons item more =>
      have at_index : items[skipped.length]? = some item := by simp [split]
      have before : itemsBefore (⟨.leaf (sum (items.map Item.summary)) items (items.map Item.summary), skipped.length,
          dimensionOf D (itemsBefore self.stack ++ skipped), dimensionOf U (itemsBefore self.stack ++ skipped)⟩ ::
            self.stack : List (StackEntry T S D U)) = itemsBefore self.stack ++ skipped := by
        simp [StackEntry.itemsBefore, Node.parts, split]
      refine ⟨_, skipped, ?_, skippedRejected, ?_, .inl ⟨item, .intro path at_index, before, found item more rfl⟩⟩
      · simp only [reduceCtorEq, ↓reduceIte, Nat.zero_add] at ran
        refine (descendToFirstItem_leaf ran).trans ?_
        exact push_of_lt (({ self with didSeek := true } : Cursor T S D U).spanning _) below _ _
      · exact fun cached => ⟨⟨congrArg _ before.symm, congrArg _ before.symm⟩, cached⟩
  | @internal height childTrees some bound wf level nonempty ih =>
    have summaries : childTrees.map Node.summary = childTrees.map fun tree => sum (tree.toList.map Item.summary) :=
      map_congr_left fun tree member => (wf tree member).summary_eq
    have below : self.stack.length < stackCapacity := Nat.lt_of_le_of_lt (Nat.le_add_right _ _) room
    obtain ⟨skipped, rest, split, rejects, ran, found⟩ :=
      skipFiltered_spec filterNode nonempty { self with didSeek := true } (itemsBefore self.stack) 0
    rw [← summaries] at ran
    have skippedRejected := exact.rejected
      (fun child member => nonempty child (by simp [split, member])) rejects
    cases rest with
    | nil =>
      refine ⟨self.stack, skipped.flatMap Node.toList, ?_, skippedRejected, id, .inr ⟨rfl, ?_⟩⟩
      · exact @descendToFirstItem_internal T S D U _ _ _ (self.spanning _) _ _ _ _ _ _ ran
      · simp [Node.toList_internal, split]
    | cons child more =>
      have member : child ∈ childTrees := by simp [split]
      have at_index : childTrees[skipped.length]? = Option.some child := by simp [split]
      let entry : StackEntry T S D U :=
        ⟨.internal (height + 1) (sum (childTrees.map Node.summary)) (childTrees.map Node.summary) childTrees,
          skipped.length, dimensionOf D (itemsBefore self.stack ++ skipped.flatMap Node.toList),
          dimensionOf U (itemsBefore self.stack ++ skipped.flatMap Node.toList)⟩
      have before : itemsBefore (entry :: self.stack) = itemsBefore self.stack ++ skipped.flatMap Node.toList := by
        simp [entry, StackEntry.itemsBefore, Node.parts, split, flatMap_def]
      have roomBelow : (entry :: self.stack).length + child.height < stackCapacity := by
        rw [level child member, length_cons]
        rw [Node.height_internal] at room
        omega
      obtain ⟨stack, childSkipped, descended, rejected, cached, place⟩ :=
        @ih child member { self with stack := entry :: self.stack, didSeek := true } (.child path at_index) roomBelow
      simp only [before] at descended place
      refine ⟨stack, skipped.flatMap Node.toList ++ childSkipped, ?_, ?_, ?_, .inl ?_⟩
      · simp only [reduceCtorEq, ↓reduceIte, Nat.zero_add] at ran
        refine (descendToFirstItem_internal ran).trans ?_
        have pushed := push_of_lt (({ self with didSeek := true } : Cursor T S D U).spanning
          (itemsBefore self.stack ++ skipped.flatMap Node.toList)) below entry.tree skipped.length
        simp only [entry] at pushed
        simp only [Option.elim_some, pushed, Option.bind_some, at_index, ← append_assoc]
        exact descended
      · simpa [or_imp, forall_and] using ⟨by simpa using skippedRejected, rejected⟩
      · intro stackCached
        exact cached ⟨⟨congrArg _ before.symm, congrArg _ before.symm⟩, stackCached⟩
      · rcases place with ⟨item, finds⟩ | ⟨same, all⟩
        · exact ⟨item, by simpa using finds⟩
        · have accepted := found child more rfl
          rw [exact _ (nonempty child member)] at accepted
          obtain ⟨item, inChild, accepts⟩ := List.any_eq_true.mp accepted
          simp [rejected item (all ▸ inChild)] at accepts

structure Moved (entry result : StackEntry T S D U) (index : ℕ) (items : List T) : Prop where
  tree : result.tree = entry.tree
  index : result.index = index
  seek (before : List T) (cached : entry.seekDimension = dimensionOf D before) :
    result.seekDimension = dimensionOf D (before ++ items)
  sum (before : List T) (cached : entry.sumDimension = dimensionOf U before) :
    result.sumDimension = dimensionOf U (before ++ items)

theorem moved_advance (entry : StackEntry T S D U) {items : List T} (some : items ≠ []) :
    Moved entry (entry.advance (sum (items.map Item.summary))) (entry.index + 1) items where
  tree := rfl
  index := rfl
  seek before cached := by simp only [StackEntry.advance, cached, addSummary_dimensionOf _ some]
  sum before cached := by simp only [StackEntry.advance, cached, addSummary_dimensionOf _ some]

omit [Add S] [Zero S] [LawfulSummary S] [LawfulDimension D S] [LawfulDimension U S] in
theorem Moved.trans {entry next result : StackEntry T S D U} {first last : ℕ} {left right : List T}
    (start : Moved entry next first left) (rest : Moved next result last right) :
    Moved entry result last (left ++ right) where
  tree := rest.tree.trans start.tree
  index := rest.index
  seek before cached := by rw [rest.seek _ (start.seek before cached), append_assoc]
  sum before cached := by rw [rest.sum _ (start.sum before cached), append_assoc]

theorem nextChild_spec {E : Type u} {part : E → List T} (filterNode : S → Bool) {child : E} {children : List E}
    (nonempty : ∀ other ∈ child :: children, part other ≠ []) (self : Cursor T S D U) (left : List T) (entry : StackEntry T S D U) :
    ∃ skipped rest result, children = skipped ++ rest ∧
      (∀ child ∈ skipped, filterNode (sum ((part child).map Item.summary)) = false) ∧
      nextChild filterNode (self.spanning left) entry
        ((child :: children).map fun child => sum ((part child).map Item.summary)) =
          (self.spanning (left ++ skipped.flatMap part), result) ∧
      Moved entry result (entry.index + 1 + skipped.length) (part child ++ skipped.flatMap part) ∧
      ∀ child more, rest = child :: more → filterNode (sum ((part child).map Item.summary)) = true := by
  induction children generalizing child left entry with
  | nil =>
    refine ⟨[], [], _, rfl, by simp, by simp [nextChild]; rfl, ?_, by simp⟩
    simpa using moved_advance entry (nonempty child mem_cons_self)
  | cons next children ih =>
    cases accepts : filterNode (sum ((part next).map Item.summary)) with
    | true =>
      refine ⟨[], next :: children, entry.advance (sum ((part child).map Item.summary)), rfl, by simp, ?_, ?_, ?_⟩
      · simp [nextChild, accepts]
      · simpa using moved_advance entry (nonempty child mem_cons_self)
      · intro first more same
        cases same
        exact accepts
    | false =>
      have advanced := moved_advance entry (nonempty child mem_cons_self)
      have later : ∀ other ∈ next :: children, part other ≠ [] := fun other member =>
        nonempty other (mem_cons_of_mem _ member)
      have filled := later next mem_cons_self
      obtain ⟨skipped, rest, result, split, rejects, ran, moved, found⟩ :=
        ih later (left ++ part next) (entry.advance (sum ((part child).map Item.summary)))
      refine ⟨next :: skipped, rest, result, by simp [split], by simpa [accepts] using rejects, ?_, ?_, found⟩
      · simp only [map_cons] at ran
        simp [nextChild, accepts, spanning_addSummary _ _ filled, ran]
      · have both := advanced.trans moved
        simpa [StackEntry.advance, Nat.add_assoc, Nat.add_comm 1, Nat.add_comm 2] using both

theorem nextItem_spec (filterNode : S → Bool) (item : T) (items : List T) (self : Cursor T S D U) (left : List T)
    (entry : StackEntry T S D U) :
    ∃ skipped rest result, items = skipped ++ rest ∧
      (∀ item ∈ skipped, filterNode (Item.summary item) = false) ∧
      nextItem filterNode (self.spanning left) entry ((item :: items).map Item.summary) =
        some (self.spanning (left ++ item :: skipped), result, !rest.isEmpty) ∧
      Moved entry result (entry.index + 1 + skipped.length) (item :: skipped) ∧
      ∀ item more, rest = item :: more → filterNode (Item.summary item) = true := by
  induction items generalizing item left entry with
  | nil =>
    have moved := moved_advance entry (cons_ne_nil item [])
    simp only [map_cons, map_nil, sum_singleton] at moved
    exact ⟨[], [], _, rfl, by simp, by simp [nextItem, spanning_addSummary_item]; rfl, by simpa using moved, by simp⟩
  | cons next items ih =>
    have moved := moved_advance entry (cons_ne_nil item [])
    simp only [map_cons, map_nil, sum_singleton] at moved
    cases accepts : filterNode (Item.summary next) with
    | true =>
      refine ⟨[], next :: items, entry.advance (Item.summary item), rfl, by simp, ?_, by simpa using moved, ?_⟩
      · simp [nextItem, accepts, spanning_addSummary_item]
      · intro first more same
        cases same
        exact accepts
    | false =>
      obtain ⟨skipped, rest, result, split, rejects, ran, movedOn, found⟩ :=
        ih next (left ++ [item]) (entry.advance (Item.summary item))
      refine ⟨next :: skipped, rest, result, by simp [split], by simpa [accepts] using rejects, ?_, ?_, found⟩
      · simp only [map_cons] at ran
        simp [nextItem, accepts, spanning_addSummary_item, ran]
      · have both := moved.trans movedOn
        simpa [StackEntry.advance, Nat.add_assoc, Nat.add_comm 1, Nat.add_comm 2] using both

omit [Add S] [Zero S] [LawfulSummary S] [LawfulDimension D S] [LawfulDimension U S] in
theorem Moved.cached {entry result : StackEntry T S D U} {stack : List (StackEntry T S D U)} {index : ℕ}
    {items : List T} (moved : Moved entry result index items) (cached : Cached entry stack)
    (before : itemsBefore (result :: stack) = itemsBefore (entry :: stack) ++ items) : Cached result stack := by
  unfold Cached
  rw [before]
  exact ⟨moved.seek _ cached.1, moved.sum _ cached.2⟩

theorem nextLoop_passed {build : Build} {filterNode : S → Bool} (exact : FilterExact T filterNode) {root node : Node T S}
    (rootWF : root.WF build) (low : root.height < stackCapacity) {entries : List (StackEntry T S D U)}
    (path : Path root node entries) {self : Cursor T S D U} (didSeek : self.didSeek = true) :
    ∃ stack skipped,
      nextLoop filterNode (self.spanning (itemsBefore entries ++ node.toList)) entries =
        some (({ self with stack, atEnd := stack.isEmpty } : Cursor T S D U).spanning
          (itemsBefore entries ++ node.toList ++ skipped)) ∧
      (∀ item ∈ skipped, filterNode (Item.summary item) = false) ∧
      (AllCached entries → AllCached stack) ∧
      ((∃ item, Finds root filterNode stack (itemsBefore entries ++ node.toList ++ skipped) item) ∨
        stack = [] ∧ root.toList = itemsBefore entries ++ node.toList ++ skipped) := by
  induction path generalizing self with
  | root =>
    refine ⟨[], [], ?_, by simp, id, .inr ⟨rfl, by simp⟩⟩
    rw [nextLoop, append_nil]
    rfl
  | @child height summary childSummaries childTrees stack index tree seekDimension sumDimension above at_index ih =>
    cases above.wf rootWF with
    | @internal height _ some bound wf level nonempty =>
    have summaries : childTrees.map Node.summary = childTrees.map fun tree => sum (tree.toList.map Item.summary) :=
      map_congr_left fun tree member => (wf tree member).summary_eq
    obtain ⟨inside, same⟩ := List.getElem?_eq_some_iff.mp at_index
    have drop : childTrees.drop index = tree :: childTrees.drop (index + 1) := by
      rw [drop_eq_getElem_cons inside, same]
    let entry : StackEntry T S D U :=
      ⟨.internal (height + 1) (sum (childTrees.map Node.summary)) (childTrees.map Node.summary) childTrees, index,
        seekDimension, sumDimension⟩
    have filled : ∀ other ∈ tree :: childTrees.drop (index + 1), other.toList ≠ [] := by
      rw [← drop]
      exact fun other member => nonempty other (mem_of_mem_drop member)
    obtain ⟨skipped, rest, result, split, rejects, ran, moved, found⟩ :=
      nextChild_spec filterNode filled self
        (itemsBefore (entry :: stack) ++ tree.toList) entry
    rw [← drop, map_drop, ← summaries] at ran
    have skippedRejected := exact.rejected
      (fun child member => nonempty child (mem_of_mem_drop (split ▸ mem_append_left _ member))) rejects
    have whole : childTrees = childTrees.take (index + 1) ++ (skipped ++ rest) := by
      rw [← split, take_append_drop]
    have size : (childTrees.take (index + 1)).length = index + 1 := by
      rw [length_take]
      omega
    have reached : childTrees.take (index + 1) = childTrees.take index ++ [tree] := by
      rw [take_add_one, at_index]
      rfl
    have prefixes : childTrees.take (index + 1 + skipped.length) = childTrees.take (index + 1) ++ skipped := by
      nth_rewrite 1 [whole]
      rw [take_append, size, take_of_length_le (by omega)]
      simp
    have resultIndex : result.index = index + 1 + skipped.length := moved.index
    have before : itemsBefore (result :: stack) =
        itemsBefore (entry :: stack) ++ tree.toList ++ skipped.flatMap Node.toList := by
      simp [StackEntry.itemsBefore, Node.parts, moved.tree, entry, resultIndex, ← map_take, prefixes, reached,
        flatMap_def]
    cases rest with
    | nil =>
      have exhausted : childTrees[result.index]? = none := by
        rw [resultIndex, whole]
        simp [size]
      have items : itemsBefore (entry :: stack) ++ tree.toList ++ skipped.flatMap Node.toList = itemsBefore stack ++
          (Node.internal (height + 1) (sum (childTrees.map Node.summary)) (childTrees.map Node.summary)
            childTrees).toList := by
        have all : childTrees = childTrees.take index ++ [tree] ++ skipped := by
          rw [← reached]
          simpa using whole
        have flat : childTrees.flatMap Node.toList =
            (childTrees.take index).flatMap Node.toList ++ tree.toList ++ skipped.flatMap Node.toList := by
          conv_lhs => rw [all]
          simp
        rw [Node.toList_internal, flat]
        simp [StackEntry.itemsBefore, Node.parts, entry, ← map_take, flatMap_def]
      obtain ⟨above, others, looped, rejected, cached, place⟩ := ih didSeek
      rw [← items] at looped place
      refine ⟨above, skipped.flatMap Node.toList ++ others, ?_, ?_, fun cachedAll => cached cachedAll.2,
        by simpa using place⟩
      · refine (nextLoop_internal ran).trans ?_
        rw [exhausted, Option.elim_none]
        simpa using looped
      · intro item member
        rcases List.mem_append.mp member with member | member
        · exact skippedRejected item member
        · exact rejected item member
    | cons child more =>
      have childAt : childTrees[result.index]? = Option.some child := by
        rw [resultIndex, whole, List.getElem?_append_right (by omega), size]
        simp
      have member : child ∈ childTrees := mem_of_getElem? childAt
      obtain ⟨resultTree, _, resultSeek, resultSum⟩ := result
      have sameTree := moved.tree
      simp only [entry] at resultIndex sameTree
      subst resultIndex sameTree
      have below := @Path.child T S D U _ _ _ _ _ _ _ _ resultSeek resultSum above childAt
      have depth := below.depth rootWF
      obtain ⟨final, others, descended, rejected, cached, place⟩ :=
        @descendToFirstItem_spec T S D U _ _ _ _ _ _ _ _ _ _ exact _ _ (wf child member) { self with stack := _ } below
          (depth ▸ low)
      have accepted := found child more rfl
      rw [exact _ (nonempty child member)] at accepted
      rcases place with place | ⟨-, all⟩
      · simp only [before] at descended place
        have notEmpty : final.isEmpty = false := by
          obtain ⟨item, finds⟩ := place
          cases finds.on
          rfl
        refine ⟨final, skipped.flatMap Node.toList ++ others, ?_, ?_, ?_, .inl (by simpa using place)⟩
        · refine (nextLoop_internal ran).trans ?_
          rw [childAt, Option.elim_some]
          refine (congrArg (Option.map _) descended).trans ?_
          simp only [Option.map_some, spanning_stack, append_assoc, didSeek]
          rfl
        · intro item member
          rcases List.mem_append.mp member with member | member
          · exact skippedRejected item member
          · exact rejected item member
        · intro stackCached
          refine cached ⟨?_, stackCached.2⟩
          refine Moved.cached moved stackCached.1 ?_
          rw [before, append_assoc]
      · obtain ⟨item, inChild, accepts⟩ := List.any_eq_true.mp accepted
        simp [rejected item (all ▸ inChild)] at accepts

theorem nextLoop_spec {build : Build} {filterNode : S → Bool} (exact : FilterExact T filterNode) {root : Node T S}
    (rootWF : root.WF build) (low : root.height < stackCapacity) {entries : List (StackEntry T S D U)} {item : T}
    (on : OnItem root entries item) {self : Cursor T S D U} (didSeek : self.didSeek = true)
    (atEnd : self.atEnd = false) :
    ∃ stack skipped,
      nextLoop filterNode (self.spanning (itemsBefore entries)) entries =
        some (({ self with stack, atEnd := stack.isEmpty } : Cursor T S D U).spanning
          (itemsBefore entries ++ item :: skipped)) ∧
      (∀ item ∈ skipped, filterNode (Item.summary item) = false) ∧
      (AllCached entries → AllCached stack) ∧
      ((∃ next, Finds root filterNode stack (itemsBefore entries ++ item :: skipped) next) ∨
        stack = [] ∧ root.toList = itemsBefore entries ++ item :: skipped) := by
  cases on with
  | @intro summary items itemSummaries stack index item seekDimension sumDimension above at_index =>
    cases above.wf rootWF with
    | leaf bound =>
    obtain ⟨inside, same⟩ := List.getElem?_eq_some_iff.mp at_index
    have drop : items.drop index = item :: items.drop (index + 1) := by
      rw [drop_eq_getElem_cons inside, same]
    let entry : StackEntry T S D U :=
      ⟨.leaf (sum (items.map Item.summary)) items (items.map Item.summary), index, seekDimension, sumDimension⟩
    obtain ⟨skipped, rest, result, split, rejected, ran, moved, found⟩ :=
      nextItem_spec filterNode item (items.drop (index + 1)) self (itemsBefore (entry :: stack)) entry
    rw [← drop, map_drop] at ran
    have resultIndex : result.index = index + 1 + skipped.length := moved.index
    have reached : items.take (index + 1) = items.take index ++ [item] := by
      rw [take_add_one, at_index]
      rfl
    have whole : items = items.take (index + 1) ++ (skipped ++ rest) := by
      rw [← split, take_append_drop]
    have size : (items.take (index + 1)).length = index + 1 := by
      rw [length_take]
      omega
    cases rest with
    | nil =>
      have leafItems : itemsBefore (entry :: stack) ++ item :: skipped = itemsBefore stack ++
          (Node.leaf (sum (items.map Item.summary)) items (items.map Item.summary) : Node T S).toList := by
        have all : items = items.take index ++ item :: skipped := by
          simpa [reached] using whole
        rw [Node.toList_leaf]
        conv_rhs => rw [all]
        simp [StackEntry.itemsBefore, Node.parts, entry, ← map_take]
      obtain ⟨final, others, looped, othersRejected, cached, place⟩ :=
        nextLoop_passed exact rootWF low above didSeek
      rw [← leafItems] at looped place
      refine ⟨final, skipped ++ others, ?_, ?_, fun cachedAll => cached cachedAll.2, by simpa using place⟩
      · refine (nextLoop_leaf ran).trans ?_
        simpa using looped
      · intro item member
        rcases List.mem_append.mp member with member | member
        · exact rejected item member
        · exact othersRejected item member
    | cons next more =>
      have nextAt : items[result.index]? = some next := by
        rw [resultIndex, whole, List.getElem?_append_right (by omega), size]
        simp
      have prefixes : items.take (index + 1 + skipped.length) = items.take (index + 1) ++ skipped := by
        nth_rewrite 1 [whole]
        rw [take_append, size, take_of_length_le (by omega)]
        simp
      have before : itemsBefore (result :: stack) = itemsBefore (entry :: stack) ++ item :: skipped := by
        simp [StackEntry.itemsBefore, Node.parts, moved.tree, entry, resultIndex, ← map_take, prefixes, reached]
      refine ⟨result :: stack, skipped, ?_, rejected, ?_, .inl ⟨next, ?_, before, found next more rfl⟩⟩
      · refine (nextLoop_leaf ran).trans ?_
        obtain ⟨_, _, _, _, _, _⟩ := self
        simp only at atEnd
        subst atEnd
        rfl
      · exact fun stackCached => ⟨Moved.cached moved stackCached.1 before, stackCached.2⟩
      · obtain ⟨resultTree, _, resultSeek, resultSum⟩ := result
        have sameTree := moved.tree
        simp only [entry] at sameTree
        subst sameTree
        exact .intro above nextAt

end Cursor

end Warp.SumTree
