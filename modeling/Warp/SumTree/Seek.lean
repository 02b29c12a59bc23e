import Warp.SumTree.Position

namespace Warp.SumTree

open List Option

universe u

variable {T S D U A : Type u} [Add S] [Zero S] [Item T S] [LawfulSummary S]

def Stops [LinearOrder D] (target : D) : SeekBias → D → Prop
  | .left, childEnd => target ≤ childEnd
  | .right, childEnd => target < childEnd

instance [LinearOrder D] (target : D) (bias : SeekBias) (childEnd : D) : Decidable (Stops target bias childEnd) := by
  cases bias <;> unfold Stops <;> infer_instance

section Comparison

variable [LinearOrder D] {target : D} {bias : SeekBias}

theorem Stops.mono {childEnd later : D} (stops : Stops target bias childEnd) (le : childEnd ≤ later) :
    Stops target bias later := by
  cases bias with
  | left => exact le_trans stops le
  | right => exact lt_of_lt_of_le stops le

theorem targetBeyond_no (atLastItem : Bool) (childEnd : D) :
    targetBeyond target bias .no atLastItem childEnd = !decide (Stops target bias childEnd) := by
  have trichotomy := lt_trichotomy childEnd target
  cases bias <;> rcases trichotomy with less | equal | greater <;>
    simp_all [targetBeyond, Stops, le_of_lt, not_le_of_gt, not_lt_of_gt, ne_of_gt, ne_of_lt]

end Comparison

inductive Mode where
  | none
  | slice
  | summary

def SeekAggregate.Holds [Dimension A S] (build : Build) (items : List T) : Mode → SeekAggregate T S A → Prop
  | .none, .none => True
  | .slice, .slice tree => tree.WF build ∧ tree.toList = items
  | .summary, .summary dimension => dimension = dimensionOf A items
  | _, _ => False

def LeafHolds [Dimension A S] (build : Build) (items passed : List T) (mode : Mode)
    (state : SeekAggregate T S A × SliceLeaf T S) : Prop :=
  match mode with
  | .slice => state.1.Holds build items .slice ∧
      state.2 = ⟨passed, passed.map Item.summary, some (sum (passed.map Item.summary))⟩
  | mode => state.1.Holds build (items ++ passed) mode ∧ state.2 = ⟨[], [], none⟩

section Aggregates

variable {build : Build} {items passed : List T} {mode : Mode} [Dimension A S]

variable {aggregate : SeekAggregate T S A} {state : SeekAggregate T S A × SliceLeaf T S}

theorem SeekAggregate.passTree_spec [LawfulDimension A S] {child : Node T S} (holds : aggregate.Holds build items mode)
    (childWF : child.WF build) (filled : child.toList ≠ []) :
    ∃ result, aggregate.passTree build child (sum (child.toList.map Item.summary)) = some result ∧
      result.Holds build (items ++ child.toList) mode := by
  cases mode <;> cases aggregate <;> simp only [Holds] at holds
  case none => exact ⟨_, rfl, trivial⟩
  case slice tree =>
    obtain ⟨treeWF, treeItems⟩ := holds
    obtain ⟨result, pushed, resultWF, resultItems⟩ := Node.pushTree_spec treeWF childWF
    exact ⟨.slice result, by simp [passTree, pushed], resultWF, by rw [resultItems, treeItems]⟩
  case summary dimension =>
    subst holds
    exact ⟨_, rfl, addSummary_dimensionOf items filled⟩

omit [LawfulSummary S] in
theorem LeafHolds.start (holds : aggregate.Holds build items mode) :
    LeafHolds build items [] mode (aggregate, SliceLeaf.new aggregate) := by
  cases mode <;> cases aggregate <;> simp_all [LeafHolds, SeekAggregate.Holds, SliceLeaf.new]

section

variable (holds : LeafHolds build items passed mode state)
include holds

theorem SeekAggregate.passItem_spec (room : passed.length < build.capacity) (item : T) :
    ∃ result, SeekAggregate.passItem build item (Item.summary item) state = some result ∧
      LeafHolds build items (passed ++ [item]) mode result := by
  obtain ⟨aggregate, leaf⟩ := state
  cases mode <;> cases aggregate <;> simp only [LeafHolds, Holds, false_and] at holds
  case none =>
    obtain ⟨-, rfl⟩ := holds
    exact ⟨_, rfl, trivial, rfl⟩
  case slice tree =>
    obtain ⟨treeHolds, rfl⟩ := holds
    refine ⟨(slice tree, ⟨passed ++ [item], (passed ++ [item]).map Item.summary,
      some (sum ((passed ++ [item]).map Item.summary))⟩), ?_, treeHolds, rfl⟩
    simp [passItem, ArrayVec.push_of_lt, room, sum_append]
  case summary dimension =>
    obtain ⟨rfl, rfl⟩ := holds
    exact ⟨_, rfl, by simp [Holds, addSummary_item], rfl⟩

theorem SeekAggregate.pushLeaf_spec (bound : passed.length ≤ build.capacity) :
    ∃ result, state.1.pushLeaf build state.2 = some result ∧ result.Holds build (items ++ passed) mode := by
  obtain ⟨aggregate, leaf⟩ := state
  cases mode <;> cases aggregate <;> simp only [LeafHolds, Holds, false_and] at holds
  case none => exact ⟨_, rfl, trivial⟩
  case slice tree =>
    obtain ⟨⟨treeWF, treeItems⟩, rfl⟩ := holds
    obtain ⟨result, pushed, resultWF, resultItems⟩ := Node.pushTree_spec treeWF (.leaf bound)
    exact ⟨.slice result, by simp [pushLeaf, pushed], resultWF, by simp [resultItems, treeItems]⟩
  case summary dimension => exact ⟨_, rfl, holds.1⟩

theorem SeekAggregate.pushNonemptyLeaf_spec (bound : passed.length ≤ build.capacity) :
    ∃ result, state.1.pushNonemptyLeaf build state.2 = some result ∧
      result.Holds build (items ++ passed) mode := by
  by_cases empty : state.2.items.isEmpty = true
  · refine ⟨state.1, by simp [pushNonemptyLeaf, empty], ?_⟩
    cases mode <;> simp only [LeafHolds] at holds
    case slice =>
      have none : passed = [] := by simpa [holds.2] using empty
      simpa [none] using holds.1
    all_goals exact holds.1
  · obtain ⟨result, pushed, resultHolds⟩ := pushLeaf_spec holds bound
    exact ⟨result, by simp [pushNonemptyLeaf, empty, pushed], resultHolds⟩

end

end Aggregates

theorem Cursor.passWhile_spec [Dimension D S] [LawfulDimension D S] [Dimension U S] [LawfulDimension U S]
    {E P : Type u} {stops : D → Prop} {passes : ℕ → D → Bool} {pass : E → S → P → Option P} {part : E → List T}
    {Holds : List E → P → Prop} {children : List E} (nonempty : ∀ child ∈ children, part child ≠ []) (self : Cursor T S D U) (left : List T) (start : ℕ) (passed : P)
    (holds : Holds [] passed)
    (step : ∀ done child rest state, children = done ++ child :: rest → Holds done state →
      ∃ result, pass child (sum ((part child).map Item.summary)) state = some result ∧
        Holds (done ++ [child]) result)
    (compare : ∀ done child rest, children = done ++ child :: rest →
      (passes (start + done.length) (dimensionOf D (left ++ done.flatMap part ++ part child)) = true ↔
        ¬ stops (dimensionOf D (left ++ done.flatMap part ++ part child)))) :
    ∃ done rest result, children = done ++ rest ∧
      passWhile passes pass start (children.map fun child => (child, sum ((part child).map Item.summary)))
        (self.spanning left) passed = some (start + done.length, self.spanning (left ++ done.flatMap part), result) ∧
      Holds done result ∧
      (done = [] ∨ ¬ stops (dimensionOf D (left ++ done.flatMap part))) ∧
      ∀ child more, rest = child :: more → stops (dimensionOf D (left ++ done.flatMap part ++ part child)) := by
  induction children generalizing left start passed Holds with
  | nil => exact ⟨[], [], passed, rfl, by simp [passWhile], holds, .inl rfl, by simp⟩
  | cons child rest ih =>
    have first := compare [] child rest rfl
    have filled := nonempty child mem_cons_self
    simp only [flatMap_nil, append_nil, length_nil, Nat.add_zero] at first
    by_cases stop : stops (dimensionOf D (left ++ part child))
    · refine ⟨[], child :: rest, passed, rfl, ?_, holds, .inl rfl, ?_⟩
      · have stay : passes start (dimensionOf D (left ++ part child)) = false := by simpa using mt first.mp (by simpa)
        simp [passWhile, addSummary_dimensionOf _ filled, stay]
      · intro first more same
        cases same
        simpa using stop
    · have move := first.mpr stop
      obtain ⟨next, nextPassed, nextHolds⟩ := step [] child rest passed rfl holds
      obtain ⟨done, others, result, same, ran, doneHolds, last, stopping⟩ := ih
        (fun child member => nonempty child (mem_cons_of_mem _ member)) (left ++ part child) (start + 1) next nextHolds
        (fun done other more state same => by
          simpa using step (child :: done) other more state (by simp [same]))
        (fun done other more same => by
          simpa [Nat.add_assoc, Nat.add_comm 1] using compare (child :: done) other more (by simp [same]))
      refine ⟨child :: done, others, result, by simp [same], ?_, doneHolds, .inr ?_, ?_⟩
      · simp only [map_cons, passWhile, spanning_seekDimension, addSummary_dimensionOf _ filled, move, ↓reduceIte,
          nextPassed, bind_eq_bind, bind_some, spanning_addSummary _ _ filled, ran]
        simp [Nat.add_assoc, Nat.add_comm 1]
      · rcases last with none | last
        · simpa [none] using stop
        · simpa using last
      · simpa using stopping

section Descent

variable [Dimension D S] [LawfulDimension D S] [Dimension U S] [LawfulDimension U S] [Dimension A S]

/-- Where a seek ends that has passed `done` after `left`: on the item that stops it, or past the last one. -/
structure Lands [LinearOrder D] (target : D) (bias : SeekBias) (root : Node T S) (left done : List T)
    (stack : List (StackEntry T S D U)) : Prop where
  passed : done = [] ∨ ¬ Stops target bias (dimensionOf D (left ++ done))
  place : (∃ item, OnItem root stack item ∧ itemsBefore stack = left ++ done ∧
      Stops target bias (dimensionOf D (left ++ done ++ [item]))) ∨
    stack = [] ∧ root.toList = left ++ done

omit [Add S] [Zero S] [LawfulSummary S] [LawfulDimension D S] [Dimension U S] [LawfulDimension U S] in
theorem Lands.after [LinearOrder D] {target : D} {bias : SeekBias} {root : Node T S} {left passed done : List T}
    {stack : List (StackEntry T S D U)} (lands : Lands target bias root (left ++ passed) done stack)
    (last : passed = [] ∨ ¬ Stops target bias (dimensionOf D (left ++ passed))) :
    Lands target bias root left (passed ++ done) stack := by
  refine ⟨?_, by simpa using lands.place⟩
  rcases lands.passed with none | lastDone
  · simpa [none] using last
  · exact .inr (by simpa using lastDone)

namespace Cursor

omit [Item T S] [LawfulSummary S] [LawfulDimension D S] [LawfulDimension U S] in
theorem descendChild_eq [LinearOrder D] (build : Build) (target : D) (bias : SeekBias) (clampMax : ClampMax)
    (self : Cursor T S D U) (aggregate : SeekAggregate T S A) (trees : List (Node T S)) (index : ℕ) :
    descendChild build target bias clampMax self aggregate trees index =
      trees[index]?.bind (descend build target bias clampMax self aggregate) := by
  induction trees generalizing index with
  | nil => rfl
  | cons tree trees ih =>
    cases index with
    | zero => rfl
    | succ index => simpa [descendChild] using ih index

omit [Add S] [Zero S] [LawfulSummary S] [LawfulDimension D S] [Dimension U S] [LawfulDimension U S] in
theorem descentPasses_exact [LinearOrder D] {E : Type u} {part : E → List T} {children done rest : List E} {child : E}
    {target : D} {bias : SeekBias} {left : List T} {stack : List (StackEntry T S D U)}
    (split : children = done ++ child :: rest)
    (within : stack = [] ∨ Stops target bias (dimensionOf D (left ++ children.flatMap part))) :
    let childEnd := dimensionOf D (left ++ done.flatMap part ++ part child)
    let maxEnd := dimensionOf D (left ++ children.flatMap part)
    targetBeyondNode target bias .no maxEnd children.length done.length childEnd =
        !decide (Stops target bias childEnd) ∧
      (descentPasses target bias .no stack.isEmpty maxEnd children.length done.length childEnd = true ↔
        ¬ Stops target bias childEnd) := by
  intro childEnd maxEnd
  by_cases last : rest = []
  · have same : childEnd = maxEnd := by simp [childEnd, maxEnd, split, last]
    have beyond : targetBeyondNode target bias .no maxEnd children.length done.length childEnd =
        !decide (Stops target bias childEnd) := by
      simp [targetBeyondNode, targetBeyond_no, same]
    refine ⟨beyond, ?_⟩
    rcases within with isRoot | stops
    · simp [descentPasses, beyond, isRoot]
    · have stops : Stops target bias childEnd := same ▸ stops
      simp [descentPasses, beyond, stops]
  · have later : done.length ≠ children.length - 1 := by
      have some := List.length_pos_iff.mpr last
      simp only [split, length_append, length_cons]
      omega
    have beyond : targetBeyondNode target bias .no maxEnd children.length done.length childEnd =
        !decide (Stops target bias childEnd) := by
      simp [targetBeyondNode, targetBeyond_no, later]
    exact ⟨beyond, by simp [descentPasses, beyond, later]⟩

theorem passItems_spec {build : Build} {mode : Mode} {aggregate : SeekAggregate T S A} {gathered : List T}
    {stops : D → Prop} {passes : ℕ → D → Bool} {items : List T} (bound : items.length ≤ build.capacity)
    (self : Cursor T S D U) (left : List T) (start : ℕ) (holds : aggregate.Holds build gathered mode)
    (compare : ∀ done item rest, items = done ++ item :: rest →
      (passes (start + done.length) (dimensionOf D (left ++ done ++ [item])) = true ↔
        ¬ stops (dimensionOf D (left ++ done ++ [item])))) :
    ∃ done rest state, items = done ++ rest ∧
      passWhile passes (SeekAggregate.passItem build) start (items.zip (items.map Item.summary)) (self.spanning left)
        (aggregate, SliceLeaf.new aggregate) = some (start + done.length, self.spanning (left ++ done), state) ∧
      LeafHolds build gathered done mode state ∧
      (done = [] ∨ ¬ stops (dimensionOf D (left ++ done))) ∧
      ∀ item more, rest = item :: more → stops (dimensionOf D (left ++ done ++ [item])) := by
  have pairs : items.zip (items.map Item.summary) =
      items.map fun item => (item, sum (([item] : List T).map Item.summary)) := by
    simpa using zip_map' (f := id) (g := Item.summary) (l := items)
  obtain ⟨done, rest, state, split, ran, leafHolds, last, stopping⟩ :=
    @passWhile_spec T S D U _ _ _ _ _ _ _ _ T _ stops passes _ (fun item => [item])
      (fun done state => LeafHolds build gathered done mode state) items (by simp) self left start
      (aggregate, SliceLeaf.new aggregate) (LeafHolds.start holds)
      (fun done item rest state split leafHolds => by
        have room : done.length < build.capacity := by
          simp only [split, length_append, length_cons] at bound
          omega
        simpa using SeekAggregate.passItem_spec leafHolds room item)
      (by simpa using compare)
  simp only [flatMap_singleton'] at ran last stopping
  exact ⟨done, rest, state, split, pairs ▸ ran, leafHolds, last, stopping⟩

theorem passTrees_spec [LawfulDimension A S] {build : Build} {mode : Mode} {aggregate : SeekAggregate T S A} {gathered : List T}
    {stops : D → Prop} {passes : ℕ → D → Bool} {trees : List (Node T S)} (wf : ∀ tree ∈ trees, tree.WF build)
    (nonempty : ∀ tree ∈ trees, tree.toList ≠ []) (self : Cursor T S D U) (left : List T) (start : ℕ) (holds : aggregate.Holds build gathered mode)
    (compare : ∀ done tree rest, trees = done ++ tree :: rest →
      (passes (start + done.length) (dimensionOf D (left ++ done.flatMap Node.toList ++ tree.toList)) = true ↔
        ¬ stops (dimensionOf D (left ++ done.flatMap Node.toList ++ tree.toList)))) :
    ∃ done rest result, trees = done ++ rest ∧
      passWhile passes (SeekAggregate.passTree build) start (trees.zip (trees.map Node.summary)) (self.spanning left)
        aggregate = some (start + done.length, self.spanning (left ++ done.flatMap Node.toList), result) ∧
      result.Holds build (gathered ++ done.flatMap Node.toList) mode ∧
      (done = [] ∨ ¬ stops (dimensionOf D (left ++ done.flatMap Node.toList))) ∧
      ∀ tree more, rest = tree :: more →
        stops (dimensionOf D (left ++ done.flatMap Node.toList ++ tree.toList)) := by
  have pairs : trees.zip (trees.map Node.summary) =
      trees.map fun tree => (tree, sum (tree.toList.map Item.summary)) := by
    have exact : trees.map Node.summary = trees.map fun tree => sum (tree.toList.map Item.summary) :=
      map_congr_left fun tree member => (wf tree member).summary_eq
    simpa [exact] using
      zip_map' (f := id) (g := fun tree => sum (tree.toList.map Item.summary)) (l := trees)
  rw [pairs]
  refine passWhile_spec nonempty self left start aggregate
    (by simpa using holds) ?_ compare
  intro done tree rest state split treeHolds
  have treeWF := wf tree (by simp [split])
  simpa using SeekAggregate.passTree_spec treeHolds treeWF (nonempty tree (by simp [split]))

theorem descend_spec [LawfulDimension A S] [LinearOrder D] {build : Build} {target : D} {bias : SeekBias} {mode : Mode}
    {root node : Node T S} (wf : node.WF build) {self : Cursor T S D U} {aggregate : SeekAggregate T S A} {gathered : List T}
    (path : Path root node self.stack) (room : self.stack.length + node.height < stackCapacity)
    (filled : self.stack = [] ∨ node.toList ≠ [])
    (within : self.stack = [] ∨ Stops target bias (dimensionOf D (itemsBefore self.stack ++ node.toList)))
    (holds : aggregate.Holds build gathered mode) :
    ∃ stack result done,
      descend build target bias .no (self.spanning (itemsBefore self.stack)) aggregate node =
        some (({ self with stack } : Cursor T S D U).spanning (itemsBefore self.stack ++ done), result, false) ∧
      Lands target bias root (itemsBefore self.stack) done stack ∧
      result.Holds build (gathered ++ done) mode ∧
      (AllCached self.stack → AllCached stack) := by
  induction wf generalizing self aggregate gathered with
  | @leaf items bound =>
    have maxEnd : Dimension.addSummary (dimensionOf D (itemsBefore self.stack)) (sum (items.map Item.summary)) =
        dimensionOf D (itemsBefore self.stack ++ items) := by
      rcases filled with isRoot | some
      · rw [isRoot]
        exact addSummary_items items
      · exact addSummary_dimensionOf _ (by simpa using some)
    have compare := fun (done : List T) (item : T) (rest : List T) (split : items = done ++ item :: rest) =>
      @descentPasses_exact T S D U _ _ _ T (fun item => [item]) _ _ _ _ target bias _ _
        split (by simpa using within)
    simp only [flatMap_singleton'] at compare
    obtain ⟨done, rest, ⟨passed, sliceLeaf⟩, split, ran, leafHolds, last, stopping⟩ :=
      passItems_spec bound self (itemsBefore self.stack) 0 holds
        (fun done item rest split => by simpa using (compare done item rest split).2)
    have doneBound : done.length ≤ build.capacity := by
      simp only [split, length_append] at bound
      omega
    obtain ⟨result, pushed, resultHolds⟩ := SeekAggregate.pushNonemptyLeaf_spec leafHolds doneBound
    cases rest with
    | nil =>
      have all : items = done := by simpa using split
      subst all
      have isRoot : self.stack = [] := by
        rcases last with none | last
        · exact filled.resolve_right (by simp [none])
        · exact within.resolve_right (by simpa using last)
      refine ⟨self.stack, result, items, ?_, ⟨last, .inr ⟨isRoot, ?_⟩⟩, resultHolds, id⟩
      · simp only [descend, spanning_seekDimension, spanning_stack, maxEnd, ran, bind_eq_bind, bind_some]
        simp only [List.getElem?_eq_none, Nat.zero_add, length_map, Nat.le_refl, Option.pure_def,
          bind_some, pushed]
      · rw [isRoot] at path
        cases path
        rw [isRoot, Node.toList_leaf]
        rfl
    | cons item more =>
      have stops := stopping item more rfl
      have found : items[done.length]? = some item := by simp [split]
      have stay : targetBeyondNode target bias .no (dimensionOf D (itemsBefore self.stack ++ items)) items.length
          done.length (dimensionOf D (itemsBefore self.stack ++ done ++ [item])) = false := by
        rw [(compare done item more split).1]
        simpa using stops
      have below : self.stack.length < stackCapacity := by
        simpa using room
      have before : itemsBefore (⟨.leaf (sum (items.map Item.summary)) items (items.map Item.summary), done.length,
          dimensionOf D (itemsBefore self.stack ++ done), dimensionOf U (itemsBefore self.stack ++ done)⟩ ::
            self.stack : List (StackEntry T S D U)) = itemsBefore self.stack ++ done := by
        simp [itemsBefore, StackEntry.itemsBefore, Node.parts, split]
      refine ⟨_, result, done, ?_, ⟨last, .inl ⟨item, .intro path found, before, stops⟩⟩, resultHolds, ?_⟩
      · simp only [descend, spanning_seekDimension, spanning_stack, maxEnd, ran, bind_eq_bind, bind_some,
          Nat.zero_add, List.getElem?_map, found, map_some, addSummary_item, stay, Bool.false_eq_true,
          ↓reduceIte, push_of_lt (self.spanning _) below, Option.pure_def, pushed]
        rfl
      · exact fun cached => ⟨⟨congrArg _ before.symm, congrArg _ before.symm⟩, cached⟩
  | @internal height childTrees some bound wf level nonempty ih =>
    have nodeWF := Node.WF.internal some bound wf level nonempty
    have items : (Node.internal (height + 1) (sum (childTrees.map Node.summary)) (childTrees.map Node.summary)
        childTrees).toList = childTrees.flatMap Node.toList := Node.toList_internal ..
    have maxEnd := addSummary_dimensionOf (D := D) (itemsBefore self.stack)
      (Node.toList_ne_nil_of_children some nonempty)
    rw [← items, ← nodeWF.summary_eq, items, Node.summary_internal] at maxEnd
    rw [items] at filled within
    have compare := fun (done : List (Node T S)) (tree : Node T S) (rest : List (Node T S))
        (split : childTrees = done ++ tree :: rest) =>
      descentPasses_exact
        split within
    obtain ⟨done, rest, passed, split, ran, passedHolds, last, stopping⟩ :=
      passTrees_spec wf nonempty self (itemsBefore self.stack) 0 holds
        (fun done tree rest split => by simpa using (compare done tree rest split).2)
    cases rest with
    | nil =>
      have all : childTrees = done := by simpa using split
      subst all
      have isRoot : self.stack = [] := by
        rcases last with none | last
        · exact absurd none some
        · exact within.resolve_right (by simpa using last)
      refine ⟨self.stack, passed, childTrees.flatMap Node.toList, ?_, ⟨.inr ?_, .inr ⟨isRoot, ?_⟩⟩, passedHolds, id⟩
      · simp only [descend, spanning_seekDimension, spanning_stack, maxEnd, ran, bind_eq_bind, bind_some,
          List.getElem?_eq_none, Nat.zero_add, length_map, Nat.le_refl, Option.pure_def]
      · exact last.resolve_left some
      · rw [isRoot] at path
        cases path
        rw [isRoot, items]
        rfl
    | cons tree more =>
      have stops := stopping tree more rfl
      have member : tree ∈ childTrees := by simp [split]
      have found : childTrees[done.length]? = Option.some tree := by simp [split]
      have treeSum := addSummary_dimensionOf (D := D) (itemsBefore self.stack ++ done.flatMap Node.toList)
        (nonempty tree member)
      rw [← (wf tree member).summary_eq] at treeSum
      have stay : targetBeyondNode target bias .no
          (dimensionOf D (itemsBefore self.stack ++ childTrees.flatMap Node.toList)) childTrees.length done.length
          (dimensionOf D (itemsBefore self.stack ++ done.flatMap Node.toList ++ tree.toList)) = false := by
        rw [(compare done tree more split).1]
        simpa using stops
      have below : self.stack.length < stackCapacity := Nat.lt_of_le_of_lt (Nat.le_add_right _ _) room
      let entry : StackEntry T S D U :=
        ⟨.internal (height + 1) (sum (childTrees.map Node.summary)) (childTrees.map Node.summary) childTrees,
          done.length, dimensionOf D (itemsBefore self.stack ++ done.flatMap Node.toList),
          dimensionOf U (itemsBefore self.stack ++ done.flatMap Node.toList)⟩
      have before : itemsBefore (entry :: self.stack) = itemsBefore self.stack ++ done.flatMap Node.toList := by
        simp [entry, itemsBefore, StackEntry.itemsBefore, Node.parts, split, flatMap_def]
      have within : Stops target bias (dimensionOf D (itemsBefore (entry :: self.stack) ++ tree.toList)) := by
        rw [before]
        exact stops
      have roomBelow : (entry :: self.stack).length + tree.height < stackCapacity := by
        rw [level tree member, length_cons]
        rw [Node.height_internal] at room
        omega
      obtain ⟨stack, result, childDone, descended, lands, resultHolds, cached⟩ :=
        @ih tree member { self with stack := entry :: self.stack } _ _ (.child path found) roomBelow
          (.inr (nonempty tree member)) (.inr within) passedHolds
      simp only [before] at descended lands
      refine ⟨stack, result, done.flatMap Node.toList ++ childDone, ?_, ?_, ?_, ?_⟩
      · have pushed := push_of_lt (self.spanning (itemsBefore self.stack ++ done.flatMap Node.toList)) below
          (.internal (height + 1) (sum (childTrees.map Node.summary)) (childTrees.map Node.summary) childTrees)
          done.length
        simp only [descend, spanning_seekDimension, spanning_stack, maxEnd, ran, bind_eq_bind, bind_some,
          Nat.zero_add, List.getElem?_map, found, map_some, treeSum, stay, pushed, descendChild_eq,
          Option.pure_def, Bool.false_or]
        refine (congrArg (fun found => found.bind fun state => Option.some (state.1, state.2.1, state.2.2)) descended).trans ?_
        simp only [bind_some, append_assoc]
      · apply lands.after
        rcases last with none | last
        · exact .inl (by simp [none])
        · exact .inr last
      · simpa using resultHolds
      · intro stackCached
        exact cached ⟨⟨congrArg _ before.symm, congrArg _ before.symm⟩, stackCached⟩

variable {aggregate : SeekAggregate T S A} {build : Build} {root : Node T S} {self : Cursor T S D U}

theorem resume_passed [LawfulDimension A S] [LinearOrder D] {target : D} {bias : SeekBias} {mode : Mode}
    {node : Node T S} (rootWF : root.WF build) {entries : List (StackEntry T S D U)} (path : Path root node entries)
    {gathered : List T} (holds : aggregate.Holds build gathered mode) :
    ∃ stack result done containing,
      resume build target bias .no (self.spanning (itemsBefore entries ++ node.toList)) aggregate entries =
        some (({ self with stack } : Cursor T S D U).spanning (itemsBefore entries ++ node.toList ++ done), result,
          containing) ∧
      result.Holds build (gathered ++ done) mode ∧
      (done = [] ∨ ¬ Stops target bias (dimensionOf D (itemsBefore entries ++ node.toList ++ done))) ∧
      ((containing = none ∧ stack = [] ∧ root.toList = itemsBefore entries ++ node.toList ++ done) ∨
        ∃ child, containing = some child ∧ Path root child stack ∧
          itemsBefore stack = itemsBefore entries ++ node.toList ++ done ∧ stack ≠ [] ∧ child.toList ≠ [] ∧
          Stops target bias (dimensionOf D (itemsBefore stack ++ child.toList))) := by
  induction path generalizing self aggregate gathered with
  | root =>
    refine ⟨[], aggregate, [], none, ?_, by simpa using holds, .inl rfl, .inl ⟨rfl, rfl, by simp⟩⟩
    rw [resume, append_nil]
    rfl
  | @child height summary childSummaries childTrees stack index tree seekDimension sumDimension above at_index ih =>
    cases above.wf rootWF with
    | @internal height _ some bound wf level nonempty =>
    have reached : (childTrees.take (index + 1)).flatMap Node.toList =
        (childTrees.take index).flatMap Node.toList ++ tree.toList := by
      rw [take_add_one, at_index]
      simp
    have before : itemsBefore (⟨.internal (height + 1) (sum (childTrees.map Node.summary))
        (childTrees.map Node.summary) childTrees, index, seekDimension, sumDimension⟩ :: stack) ++ tree.toList =
        itemsBefore stack ++ (childTrees.take (index + 1)).flatMap Node.toList := by
      simp [StackEntry.itemsBefore, Node.parts, reached, ← map_take, flatMap_def]
    have bound : index + 1 ≤ childTrees.length := by
      have found := List.getElem?_eq_some_iff.mp at_index
      exact found.1
    obtain ⟨passed, rest, result, split, ran, resultHolds, last, stopping⟩ :=
      @passTrees_spec T S D U A _ _ _ _ _ _ _ _ _ _ build mode _ _ (Stops target bias)
        (fun index => targetBeyond target bias .no (index == childTrees.length - 1)) _
        (fun tree member => wf tree (mem_of_mem_drop member))
        (fun tree member => nonempty tree (mem_of_mem_drop member)) self
        (itemsBefore stack ++ (childTrees.take (index + 1)).flatMap Node.toList) (index + 1) holds
        (by simp [targetBeyond_no])
    have slices : sliceFrom childTrees (index + 1) = Option.some (childTrees.drop (index + 1)) ∧
        sliceFrom (childTrees.map Node.summary) (index + 1) =
          Option.some ((childTrees.drop (index + 1)).map Node.summary) := by
      simp [sliceFrom, bound, map_drop]
    have whole : childTrees = childTrees.take (index + 1) ++ (passed ++ rest) := by
      rw [← split, take_append_drop]
    have size : (childTrees.take (index + 1)).length = index + 1 := by simp [bound]
    rw [before]
    cases rest with
    | nil =>
      have exhausted : childTrees[index + 1 + passed.length]? = none := by
        rw [whole]
        simp [size]
      have items : (Node.internal (height + 1) (sum (childTrees.map Node.summary)) (childTrees.map Node.summary)
          childTrees).toList = (childTrees.take (index + 1)).flatMap Node.toList ++ passed.flatMap Node.toList := by
        rw [Node.toList_internal]
        nth_rewrite 1 [whole]
        simp
      obtain ⟨above, final, done, containing, resumed, finalHolds, lastDone, place⟩ := ih resultHolds
      rw [items] at resumed lastDone place
      refine ⟨above, final, passed.flatMap Node.toList ++ done, containing, ?_, by simpa using finalHolds, ?_,
        by simpa using place⟩
      · simp only [resume, slices, bind_eq_bind, bind_some, ran, exhausted]
        simpa using resumed
      · rcases lastDone with none | lastDone
        · rcases last with nonePassed | last
          · exact .inl (by simp [none, nonePassed])
          · exact .inr (by simpa [none] using last)
        · exact .inr (by simpa using lastDone)
    | cons child more =>
      have found : childTrees[index + 1 + passed.length]? = Option.some child := by
        rw [whole, List.getElem?_append_right (by omega), size]
        simp
      have stops := stopping child more rfl
      have member : child ∈ childTrees := mem_of_getElem? found
      have prefixes : childTrees.take (index + 1 + passed.length) = childTrees.take (index + 1) ++ passed := by
        nth_rewrite 1 [whole]
        rw [take_append, size, take_of_length_le (by omega)]
        simp
      have place : itemsBefore (⟨.internal (height + 1) (sum (childTrees.map Node.summary))
          (childTrees.map Node.summary) childTrees, index + 1 + passed.length, seekDimension, sumDimension⟩ :: stack) =
          itemsBefore stack ++ (childTrees.take (index + 1)).flatMap Node.toList ++ passed.flatMap Node.toList := by
        simp [StackEntry.itemsBefore, Node.parts, ← map_take, ← flatMap_def, prefixes]
      refine ⟨_, result, passed.flatMap Node.toList, Option.some child, ?_, resultHolds, ?_,
        .inr ⟨child, rfl, .child above found, place, cons_ne_nil _ _, nonempty child member, ?_⟩⟩
      · simp only [resume, slices, bind_eq_bind, bind_some, ran, found]
        rfl
      · rcases last with none | last
        · exact .inl (by simp [none])
        · exact .inr last
      · rw [place]
        exact stops

theorem resume_spec [LawfulDimension A S] [LinearOrder D] {build : Build} {target : D} {bias : SeekBias} {mode : Mode}
    {root : Node T S} (rootWF : root.WF build) {item : T} {entries : List (StackEntry T S D U)}
    (on : OnItem root entries item) {self : Cursor T S D U} {aggregate : SeekAggregate T S A} {gathered : List T}
    (holds : aggregate.Holds build gathered mode) :
    ∃ stack result done containing,
      resume build target bias .no (self.spanning (itemsBefore entries)) aggregate entries =
        some (({ self with stack } : Cursor T S D U).spanning (itemsBefore entries ++ done), result, containing) ∧
      result.Holds build (gathered ++ done) mode ∧
      (done = [] ∨ ¬ Stops target bias (dimensionOf D (itemsBefore entries ++ done))) ∧
      ((containing = none ∧ Lands target bias root (itemsBefore entries) done stack) ∨
        ∃ child, containing = some child ∧ Path root child stack ∧
          itemsBefore stack = itemsBefore entries ++ done ∧ stack ≠ [] ∧ child.toList ≠ [] ∧
          Stops target bias (dimensionOf D (itemsBefore stack ++ child.toList))) := by
  cases on with
  | @intro summary items itemSummaries stack index item seekDimension sumDimension above at_index =>
    cases above.wf rootWF with
    | leaf bound =>
    have before : itemsBefore (⟨.leaf (sum (items.map Item.summary)) items (items.map Item.summary), index,
        seekDimension, sumDimension⟩ :: stack) = itemsBefore stack ++ items.take index := by
      simp [StackEntry.itemsBefore, Node.parts, ← map_take]
    have inside : index < items.length := (List.getElem?_eq_some_iff.mp at_index).1
    have dropBound : (items.drop index).length ≤ build.capacity := by
      simp only [length_drop]
      omega
    obtain ⟨passed, rest, ⟨result, sliceLeaf⟩, split, ran, leafHolds, last, stopping⟩ :=
      @passItems_spec T S D U A _ _ _ _ _ _ _ _ _ build mode _ _ (Stops target bias)
        (fun index => targetBeyond target bias .no (index == items.length - 1)) _ dropBound self
        (itemsBefore stack ++ items.take index) index holds (by simp [targetBeyond_no])
    have passedBound : passed.length ≤ build.capacity := by
      simp only [split, length_append] at dropBound
      omega
    have slices : sliceFrom items index = some (items.drop index) ∧
        sliceFrom (items.map Item.summary) index = some ((items.drop index).map Item.summary) := by
      simp [sliceFrom, Nat.le_of_lt inside, map_drop]
    have whole : items = items.take index ++ (passed ++ rest) := by
      rw [← split, take_append_drop]
    have size : (items.take index).length = index := by simp [Nat.le_of_lt inside]
    have length : items.length = index + passed.length + rest.length := by
      rw [whole, length_append, length_append, size, Nat.add_assoc]
    rw [before]
    cases rest with
    | nil =>
      obtain ⟨pushedLeaf, pushed, pushedHolds⟩ := SeekAggregate.pushNonemptyLeaf_spec leafHolds passedBound
      obtain ⟨entries, final, done, containing, resumed, finalHolds, lastDone, place⟩ :=
        resume_passed rootWF above pushedHolds
      have leafItems : (Node.leaf (sum (items.map Item.summary)) items (items.map Item.summary) : Node T S).toList =
          items.take index ++ passed := by
        rw [Node.toList_leaf]
        nth_rewrite 1 [whole]
        simp
      have lastAll : passed ++ done = [] ∨
          ¬ Stops target bias (dimensionOf D (itemsBefore stack ++ items.take index ++ (passed ++ done))) := by
        rcases lastDone with none | lastDone
        · rcases last with nonePassed | last
          · exact .inl (by simp [none, nonePassed])
          · exact .inr (by simpa [none] using last)
        · rw [leafItems] at lastDone
          exact .inr (by simpa using lastDone)
      rw [leafItems] at resumed place
      refine ⟨entries, final, passed ++ done, containing, ?_, by simpa using finalHolds, lastAll, ?_⟩
      · have notInside : ¬ index + passed.length < items.length := by
          rw [length, length_nil]
          omega
        simp only [resume, slices, bind_eq_bind, bind_some, ran, notInside, ↓reduceIte, pushed]
        simpa using resumed
      · rcases place with ⟨none, empty, all⟩ | place
        · exact .inl ⟨none, lastAll, .inr ⟨empty, by simpa using all⟩⟩
        · exact .inr (by simpa using place)
    | cons next more =>
      obtain ⟨pushedLeaf, pushed, pushedHolds⟩ := SeekAggregate.pushLeaf_spec leafHolds passedBound
      have found : items[index + passed.length]? = some next := by
        rw [whole, List.getElem?_append_right (by omega), size]
        simp
      have prefixes : items.take (index + passed.length) = items.take index ++ passed := by
        nth_rewrite 1 [whole]
        rw [take_append, size, take_of_length_le (by omega)]
        simp
      have place : itemsBefore (⟨.leaf (sum (items.map Item.summary)) items (items.map Item.summary),
          index + passed.length, seekDimension, sumDimension⟩ :: stack) =
          itemsBefore stack ++ items.take index ++ passed := by
        simp [StackEntry.itemsBefore, Node.parts, ← map_take, prefixes]
      refine ⟨_, pushedLeaf, passed, none, ?_, pushedHolds, last,
        .inl ⟨rfl, last, .inl ⟨next, .intro above found, place, stopping next more rfl⟩⟩⟩
      have isInside : index + passed.length < items.length := by
        rw [length, length_cons]
        omega
      simp only [resume, slices, bind_eq_bind, bind_some, ran, isInside, ↓reduceIte, pushed]
      rfl

omit [LawfulSummary S] [Dimension D S] [LawfulDimension D S] [Dimension U S] [LawfulDimension U S] in
theorem itemSummary_of_item (rootWF : root.WF build) {item : T} (didSeek : self.didSeek = true)
    (on : OnItem root self.stack item) :
    self.itemSummary build = some (some (Item.summary item)) := by
  obtain ⟨tree, stack, seekDimension, sumDimension, _, atEnd⟩ := self
  simp only at on didSeek
  subst didSeek
  cases on with
  | @intro summary items itemSummaries stack index item _ _ above at_index =>
    cases above.wf rootWF with
    | leaf bound =>
      have inside : index < items.length := (List.getElem?_eq_some_iff.mp at_index).1
      simp [itemSummary, assertDidSeek, at_index, Nat.ne_of_lt inside]

/-- Where a cursor may be when it is sought on: not placed yet, on an item, or past the last one. -/
inductive Ready (root : Node T S) (self : Cursor T S D U) : List T → Prop
  | fresh (didSeek : self.didSeek = false) (stack : self.stack = []) : Ready root self []
  | item {item : T} (didSeek : self.didSeek = true) (on : OnItem root self.stack item) :
    Ready root self (itemsBefore self.stack)
  | end (didSeek : self.didSeek = true) (stack : self.stack = []) : Ready root self root.toList

theorem locate_spec [LawfulDimension A S] [LinearOrder D] {build : Build} {target : D} {bias : SeekBias} {mode : Mode}
    {root : Node T S} (rootWF : root.WF build) (height : root.height < stackCapacity) {self : Cursor T S D U}
    (tree : self.tree = root) {left : List T} (ready : Ready root self left) {aggregate : SeekAggregate T S A}
    {gathered : List T} (holds : aggregate.Holds build gathered mode) :
    ∃ stack result done,
      locate build target bias aggregate .no (self.spanning left) =
        some (({ self with stack, didSeek := true } : Cursor T S D U).spanning (left ++ done), result, false) ∧
      Lands target bias root left done stack ∧
      result.Holds build (gathered ++ done) mode ∧
      (self.didSeek = false → AllCached stack) := by
  obtain ⟨selfTree, entries, seekDimension, sumDimension, placed, atEnd⟩ := self
  simp only at tree
  subst tree
  cases ready with
  | fresh didSeek empty =>
    simp only at didSeek empty
    subst didSeek empty
    let self : Cursor T S D U := ⟨selfTree, [], seekDimension, sumDimension, true, atEnd⟩
    obtain ⟨stack, result, done, descended, lands, resultHolds, cached⟩ :=
      @descend_spec T S D U A _ _ _ _ _ _ _ _ _ _ _ build target bias mode _ _ rootWF self _ _ .root
        (by simpa [self] using height) (.inl rfl) (.inl rfl) holds
    exact ⟨stack, result, done, descended, lands, resultHolds, fun _ => cached trivial⟩
  | @item item didSeek on =>
    simp only at didSeek on
    subst didSeek
    obtain ⟨stack, result, done, containing, resumed, resultHolds, last, place⟩ :=
      @resume_spec T S D U A _ _ _ _ _ _ _ _ _ _ _ build target bias mode _ rootWF _ _ on
        ⟨selfTree, entries, seekDimension, sumDimension, true, atEnd⟩ _ _ holds
    rcases place with ⟨rfl, lands⟩ | ⟨child, rfl, path, before, notRoot, filled, within⟩
    · refine ⟨stack, result, done, ?_, lands, resultHolds, by simp⟩
      simp only [locate, spanning_didSeek, ↓reduceIte, spanning_stack, resumed, bind_eq_bind, bind_some]
    · have depth := path.depth rootWF
      let self : Cursor T S D U := ⟨selfTree, stack, seekDimension, sumDimension, true, atEnd⟩
      obtain ⟨entries, final, childDone, descended, lands, finalHolds, cached⟩ :=
        @descend_spec T S D U A _ _ _ _ _ _ _ _ _ _ _ build target bias mode _ _ (path.wf rootWF) self _ _ path
          (by simpa [self, depth] using height) (.inr filled) (.inr within) resultHolds
      simp only [self, before] at descended lands
      refine ⟨entries, final, done ++ childDone, ?_, lands.after last, by simpa using finalHolds, by simp⟩
      simp only [locate, spanning_didSeek, ↓reduceIte, spanning_stack, resumed, bind_eq_bind, bind_some]
      simpa using descended
  | «end» didSeek empty =>
    simp only at didSeek empty
    subst didSeek empty
    refine ⟨[], aggregate, [], ?_, ⟨.inl rfl, .inr ⟨rfl, by simp⟩⟩, by simpa using holds, by simp⟩
    simp only [locate, spanning_didSeek, ↓reduceIte, spanning_stack, resume, bind_eq_bind, bind_some,
      append_nil]
    rfl

theorem seekInternal_spec [LawfulDimension A S] [LinearOrder D] {target : D} {bias : SeekBias} {mode : Mode}
    (rootWF : root.WF build) (height : root.height < stackCapacity) (tree : self.tree = root) {left : List T}
    (ready : Ready root self left) (assertion : build.debugAssertions = true → dimensionOf D left ≤ target)
    {gathered : List T} (holds : aggregate.Holds build gathered mode) :
    ∃ stack result done found,
      seekInternal build target bias aggregate .no (self.spanning left) =
        some (({ self with stack, didSeek := true, atEnd := stack.isEmpty } : Cursor T S D U).spanning (left ++ done), result,
          found) ∧
      Lands target bias root left done stack ∧
      result.Holds build (gathered ++ done) mode ∧
      (self.didSeek = false → AllCached stack) := by
  have noPanic : (build.debugAssertions && decide (target < (self.spanning left).seekDimension)) = false := by
    cases debug : build.debugAssertions with
    | false => rfl
    | true =>
      have le := assertion debug
      rw [Bool.true_and, decide_eq_false_iff_not]
      exact not_lt_of_ge le
  obtain ⟨stack, result, done, located, lands, resultHolds, cached⟩ :=
    @locate_spec T S D U A _ _ _ _ _ _ _ _ _ _ _ build target bias mode root rootWF height self tree left ready _ _ holds
  let final : Cursor T S D U :=
    ({ self with stack, didSeek := true, atEnd := stack.isEmpty } : Cursor T S D U).spanning (left ++ done)
  have summary : ∃ summary, final.itemSummary build = some summary := by
    rcases lands.place with ⟨item, on, before, stops⟩ | ⟨empty, all⟩
    · exact ⟨_, itemSummary_of_item rootWF rfl on⟩
    · exact ⟨none, by simp [final, itemSummary, assertDidSeek, empty]⟩
  obtain ⟨summary, summarised⟩ := summary
  cases bias with
  | left =>
    refine ⟨stack, result, done, ?found, ?seeks, lands, resultHolds, cached⟩
    case seeks =>
      simp only [seekInternal, noPanic, Bool.false_eq_true, ↓reduceIte, located, bind_eq_bind, bind_some,
        spanning_stack]
      change (itemSummary build final).bind _ = _
      rw [summarised]
      rfl
  | right =>
    refine ⟨stack, result, done, decide (target = dimensionOf D (left ++ done)), ?_, lands, resultHolds, cached⟩
    simp only [seekInternal, noPanic, Bool.false_eq_true, ↓reduceIte, located, bind_eq_bind, bind_some,
      spanning_stack, reduceCtorEq]
    rfl

end Cursor

end Descent

end Warp.SumTree
