import Warp.SumTree.CursorExact

namespace Warp.SumTree

open List

universe u

variable {T S U : Type u}

structure FilterCursor (T S U : Type u) where
  cursor : Cursor T S PUnit U
  filterNode : S → Bool

namespace FilterCursor

variable [Dimension U S]

def new (tree : Node T S) (filterNode : S → Bool) : Option (FilterCursor T S U) := do
  let cursor : Cursor T S PUnit U := Cursor.new tree
  if filterNode tree.summary then
    let cursor ← cursor.descendToFirstItem filterNode tree
    return ⟨cursor, filterNode⟩
  else return ⟨{ cursor with didSeek := true, atEnd := true }, filterNode⟩

omit [Dimension U S] in
def start (self : FilterCursor T S U) : U := self.cursor.start

omit [Dimension U S] in
def item (build : Build) (self : FilterCursor T S U) : Option (Option T) := self.cursor.item build

def next (build : Build) (self : FilterCursor T S U) : Option (FilterCursor T S U) := do
  let cursor ← self.cursor.nextInternal build self.filterNode
  return { self with cursor }

def yield (build : Build) (self : FilterCursor T S U) : Option (FilterCursor T S U × Option T) := do
  match ← self.item build with
  | some item => do
    let advanced ← self.next build
    return (advanced, some item)
  | none => return (self, none)

/-- What at most `count` turns of the iterator yield, each item with the `start` at it. -/
def take (build : Build) : ℕ → FilterCursor T S U → Option (List (T × U))
  | 0, _ => some []
  | count + 1, self => do
    match ← self.yield build with
    | (advanced, some item) => do
      let rest ← take build count advanced
      return (item, self.start) :: rest
    | (_, none) => return []

end FilterCursor

/-- The items that the filter accepts, each with the sum of all the items before it. -/
def matching [Item T S] [Dimension U S] (filterNode : S → Bool) (before : List T) : List T → List (T × U)
  | [] => []
  | item :: rest =>
    if filterNode (Item.summary item) then (item, dimensionOf U before) :: matching filterNode (before ++ [item]) rest
    else matching filterNode (before ++ [item]) rest

section Matching

variable [Item T S] [Dimension U S] {filterNode : S → Bool} {before skipped rest : List T} {item : T}

theorem matching_skipped (before rest : List T) (rejected : ∀ item ∈ skipped, filterNode (Item.summary item) = false) :
    (matching filterNode before (skipped ++ rest) : List (T × U)) = matching filterNode (before ++ skipped) rest := by
  induction skipped generalizing before with
  | nil => simp
  | cons first skipped ih =>
    rw [cons_append, matching, rejected first mem_cons_self]
    simpa using ih (before ++ [first]) fun item member => rejected item (mem_cons_of_mem _ member)

theorem matching_rejected (rejected : ∀ item ∈ skipped, filterNode (Item.summary item) = false) :
    (matching filterNode before skipped : List (T × U)) = [] := by
  have none' := matching_skipped (U := U) before [] rejected
  rwa [append_nil] at none'

theorem matching_accepted (accepts : filterNode (Item.summary item) = true) :
    (matching filterNode before (item :: rest) : List (T × U)) =
      (item, dimensionOf U before) :: matching filterNode (before ++ [item]) rest := by
  rw [matching, if_pos accepts]

end Matching

section Yields

variable [Add S] [Zero S] [Item T S] [LawfulSummary S] [Dimension U S] [LawfulDimension U S] {build : Build}
  {filterNode : S → Bool} {root : Node T S} {stack : List (StackEntry T S PUnit U)} {before rest : List T} {item : T}
  {seek : PUnit} {sum : U}

omit [Add S] [Zero S] [Item T S] [LawfulSummary S] [LawfulDimension U S] in
theorem FilterCursor.take_ended {cursor : FilterCursor T S U} (ended : cursor.cursor.stack = [])
    (didSeek : cursor.cursor.didSeek = true) (count : ℕ) : cursor.take build count = some [] := by
  have none' : cursor.item build = some none := by
    simp [FilterCursor.item, Cursor.item, Cursor.assertDidSeek, didSeek, ended]
  cases count with
  | zero => rfl
  | succ count => simp [FilterCursor.take, FilterCursor.yield, none']

theorem Cursor.Finds.take (exact : FilterExact T filterNode) (rootWF : root.WF build) (low : root.height < stackCapacity)
    (finds : Cursor.Finds root filterNode stack before item) (split : root.toList = before ++ rest) (count : ℕ) :
    FilterCursor.take build count
        ⟨(⟨root, stack, seek, sum, true, false⟩ : Cursor T S PUnit U).spanning before, filterNode⟩ =
      some ((matching filterNode before rest).take count) := by
  induction count generalizing stack before item rest with
  | zero => simp [FilterCursor.take]
  | succ count ih =>
    obtain ⟨on, rfl, accepts⟩ := finds
    have known : rest = item :: itemsAfter stack := by
      rw [on.toList] at split
      exact (append_cancel_left split).symm
    subst known
    let self : Cursor T S PUnit U := ⟨root, stack, seek, sum, true, false⟩
    have seeked : (self.spanning (itemsBefore stack)).assertDidSeek build = some ⟨⟩ := by
      simp [Cursor.assertDidSeek, self]
    have isItem : (self.spanning (itemsBefore stack)).item build = some (some item) := by
      rw [(IsAt.item on).item_eq rootWF seeked]
      simp [Place.item, on.toList]
    obtain ⟨final, skipped, looped, rejected, -, place⟩ :=
      @Cursor.nextLoop_spec T S PUnit U _ _ _ _ _ _ _ _ build filterNode exact root rootWF low stack item on self rfl rfl
    have moved : (self.spanning (itemsBefore stack)).nextInternal build filterNode =
        some (({ self with stack := final, atEnd := final.isEmpty } : Cursor T S PUnit U).spanning
          (itemsBefore stack ++ item :: skipped)) := by
      have placed : stack.isEmpty = false := by simpa using on.ne_nil
      rw [Cursor.nextInternal, seeked]
      show (if stack.isEmpty then _ else _) = _
      rw [placed]
      exact looped
    have yielded : FilterCursor.yield build ⟨self.spanning (itemsBefore stack), filterNode⟩ =
        some (⟨({ self with stack := final, atEnd := final.isEmpty } : Cursor T S PUnit U).spanning
          (itemsBefore stack ++ item :: skipped), filterNode⟩, some item) := by
      simp only [FilterCursor.yield, FilterCursor.item, FilterCursor.next, isItem, moved]
      rfl
    have taken : FilterCursor.take build count
        ⟨({ self with stack := final, atEnd := final.isEmpty } : Cursor T S PUnit U).spanning
          (itemsBefore stack ++ item :: skipped), filterNode⟩ =
        some ((matching filterNode (itemsBefore stack ++ [item]) (itemsAfter stack)).take count) := by
      rcases place with ⟨next, finds⟩ | ⟨rfl, all⟩
      · have placed : final.isEmpty = false := by simpa using finds.on.ne_nil
        have whole := finds.on.toList
        rw [finds.before, split, append_assoc] at whole
        have after : itemsAfter stack = skipped ++ next :: itemsAfter final :=
          (List.cons.inj (append_cancel_left whole)).2
        rw [after, matching_skipped _ _ rejected, append_assoc, placed]
        exact ih finds (by rw [split, after, append_assoc]; rfl)
      · have after := append_cancel_left (split.symm.trans all)
        rw [(List.cons.inj after).2, matching_rejected rejected, take_nil]
        exact FilterCursor.take_ended rfl rfl count
    rw [FilterCursor.take, yielded, matching_accepted accepts, take_succ_cons]
    show (FilterCursor.take build count _ >>= _) = _
    rw [taken]
    rfl

omit [LawfulDimension U S] in
theorem FilterCursor.new_rejected (exact : FilterExact T filterNode) (rootWF : root.WF build)
    (rejected : ∀ item ∈ root.toList, filterNode (Item.summary item) = false) :
    ∃ cursor : FilterCursor T S U, FilterCursor.new root filterNode = some cursor ∧ cursor.cursor.stack = [] ∧
      cursor.cursor.didSeek = true := by
  cases accepted : filterNode root.summary with
  | false => exact ⟨_, if_neg (by simp [accepted]), rfl, rfl⟩
  | true =>
    -- only the sum of no items may be accepted with none of its items
    have empty : root.toList = [] := by
      by_contra some'
      rw [rootWF.summary_eq, exact _ some'] at accepted
      obtain ⟨item, member, accepts⟩ := List.any_eq_true.mp accepted
      simp [rejected item member] at accepts
    have leaf := empty_root rootWF empty
    subst leaf
    exact ⟨_, if_pos accepted, rfl, rfl⟩

theorem FilterExact.root_accepted (exact : FilterExact T filterNode) (rootWF : root.WF build) (member : item ∈ root.toList)
    (accepts : filterNode (Item.summary item) = true) : filterNode root.summary = true := by
  rw [rootWF.summary_eq, exact _ (ne_nil_of_mem member)]
  exact List.any_eq_true.mpr ⟨item, member, accepts⟩

theorem FilterCursor.new_take (exact : FilterExact T filterNode) (rootWF : root.WF build)
    (low : root.height < stackCapacity ∨ ∀ item ∈ root.toList, filterNode (Item.summary item) = false) (count : ℕ) :
    (FilterCursor.new root filterNode).bind (FilterCursor.take build count) =
      some ((matching filterNode [] root.toList : List (T × U)).take count) := by
  by_cases rejected : ∀ item ∈ root.toList, filterNode (Item.summary item) = false
  · obtain ⟨cursor, isNew, ended, didSeek⟩ := FilterCursor.new_rejected (U := U) exact rootWF rejected
    rw [isNew, matching_rejected rejected, take_nil]
    exact FilterCursor.take_ended ended didSeek count
  · have low := low.resolve_right rejected
    push Not at rejected
    obtain ⟨item, member, accepts⟩ := rejected
    have accepts : filterNode (Item.summary item) = true := by simpa using accepts
    obtain ⟨stack, skipped, descended, rejected, -, place⟩ :=
      @Cursor.descendToFirstItem_spec T S PUnit U _ _ _ _ _ _ _ _ build filterNode exact root root rootWF (Cursor.new root)
        .root (by simpa [Cursor.new] using low)
    have isNew : FilterCursor.new root filterNode = some ⟨(⟨root, stack, ⟨⟩, Dimension.default S, true, false⟩ :
        Cursor T S PUnit U).spanning skipped, filterNode⟩ := by
      rw [FilterCursor.new, if_pos (exact.root_accepted rootWF member accepts)]
      rw [show Cursor.descendToFirstItem filterNode (Cursor.new root) root = _ from descended]
      rfl
    rw [isNew]
    rcases place with ⟨first, finds⟩ | ⟨-, all⟩
    · have whole := finds.on.toList
      rw [finds.before] at whole
      change root.toList = skipped ++ first :: itemsAfter stack at whole
      refine (finds.take exact rootWF low whole count).trans ?_
      rw [whole, matching_skipped _ _ rejected]
      rfl
    · simp [rejected item (all ▸ member)] at accepts

theorem Cursor.descendToFirstItem_full (exact : FilterExact T filterNode) {node : Node T S} (wf : node.WF build)
    {self : Cursor T S PUnit U} {left : List T} (full : stackCapacity ≤ self.stack.length + node.height)
    (accepted : ∃ item ∈ node.toList, filterNode (Item.summary item) = true) :
    Cursor.descendToFirstItem filterNode (self.spanning left) node = none := by
  induction wf generalizing self left with
  | @leaf items bound =>
    obtain ⟨skipped, rest, split, rejects, ran, -⟩ :=
      @Cursor.skipFiltered_spec T S PUnit U _ _ _ _ _ _ _ _ T (fun item => [item]) filterNode items (by simp)
        { self with didSeek := true } left 0
    have rejected := exact.rejected (by simp) rejects
    simp only [map_cons, map_nil, sum_singleton, flatMap_singleton'] at ran rejected
    have some' : rest ≠ [] := by
      rintro rfl
      obtain ⟨item, member, accepts⟩ := accepted
      rw [Node.toList_leaf, split, append_nil] at member
      simp [rejected item member] at accepts
    rw [if_neg some'] at ran
    refine (@Cursor.descendToFirstItem_leaf T S PUnit U _ _ _ (self.spanning left) _ _ _ _ _ ran).trans ?_
    exact if_neg (by simpa using full)
  | @internal height childTrees some bound wf level nonempty ih =>
    have summaries : childTrees.map Node.summary = childTrees.map fun tree => sum (tree.toList.map Item.summary) :=
      map_congr_left fun tree member => (wf tree member).summary_eq
    obtain ⟨skipped, rest, split, rejects, ran, found⟩ :=
      Cursor.skipFiltered_spec filterNode nonempty { self with didSeek := true } left 0
    rw [← summaries] at ran
    have rejected := exact.rejected (fun child member => nonempty child (by simp [split, member])) rejects
    cases rest with
    | nil =>
      obtain ⟨item, member, accepts⟩ := accepted
      rw [Node.toList_internal, split, append_nil] at member
      simp [rejected item member] at accepts
    | cons child more =>
      have member : child ∈ childTrees := by simp [split]
      have at_index : childTrees[0 + skipped.length]? = Option.some child := by simp [split]
      have acceptedBelow : ∃ item ∈ child.toList, filterNode (Item.summary item) = true := by
        have accepts := found child more rfl
        rw [exact _ (nonempty child member)] at accepts
        exact List.any_eq_true.mp accepts
      rw [if_neg (cons_ne_nil _ _)] at ran
      refine (@Cursor.descendToFirstItem_internal T S PUnit U _ _ _ (self.spanning left) _ _ _ _ _ _ ran).trans ?_
      rw [Option.elim_some]
      let passed := ({ self with didSeek := true } : Cursor T S PUnit U).spanning (left ++ skipped.flatMap Node.toList)
      by_cases room : passed.stack.length < stackCapacity
      · let entry : StackEntry T S PUnit U := ⟨.internal (height + 1) (SumTree.sum (childTrees.map Node.summary))
          (childTrees.map Node.summary) childTrees, 0 + skipped.length, passed.seekDimension, passed.sumDimension⟩
        have fullBelow : stackCapacity ≤ (entry :: self.stack).length + child.height := by
          rw [level child member, length_cons]
          rw [Node.height_internal] at full
          omega
        rw [Cursor.push_of_lt passed room, Option.bind_some, at_index, Option.bind_some]
        exact @ih child member { self with stack := entry :: self.stack, didSeek := true }
          (left ++ skipped.flatMap Node.toList) fullBelow acceptedBelow
      · exact congrArg (Option.bind · _) (if_neg room)

theorem FilterCursor.new_full (exact : FilterExact T filterNode) (rootWF : root.WF build)
    (full : stackCapacity ≤ root.height) (accepted : ∃ item ∈ root.toList, filterNode (Item.summary item) = true) :
    (FilterCursor.new root filterNode : Option (FilterCursor T S U)) = none := by
  obtain ⟨item, member, accepts⟩ := id accepted
  rw [FilterCursor.new, if_pos (exact.root_accepted rootWF member accepts)]
  rw [show Cursor.descendToFirstItem filterNode (Cursor.new root : Cursor T S PUnit U) root = none from
    @Cursor.descendToFirstItem_full T S U _ _ _ _ _ _ build filterNode exact root rootWF (Cursor.new root) [] (by
      simpa [Cursor.new] using full) accepted]
  rfl

end Yields

section Heights

variable [Add S] [Zero S] [Item T S] {build : Build}

theorem Node.WF.length_le {tree : Node T S} (wf : tree.WF build) : tree.toList.length ≤ build.capacity ^ (tree.height + 1) := by
  induction wf with
  | leaf bound => simpa using bound
  | @internal height childTrees some bound wf level nonempty ih =>
    have each : ∀ length ∈ childTrees.map fun tree => tree.toList.length, length ≤ build.capacity ^ (height + 1) := by
      intro length member
      obtain ⟨tree, child, rfl⟩ := List.mem_map.mp member
      exact level tree child ▸ ih tree child
    rw [Node.toList_internal, length_flatMap, Node.height_internal, pow_succ']
    calc (childTrees.map fun tree => tree.toList.length).sum
        ≤ childTrees.length * build.capacity ^ (height + 1) := by
          simpa using sum_le_card_nsmul _ _ each
      _ ≤ build.capacity * build.capacity ^ (height + 1) := Nat.mul_le_mul_right _ bound

theorem Node.WF.le_height {tree : Node T S} (wf : tree.WF build) {height : ℕ}
    (many : build.capacity ^ height < tree.toList.length) : height ≤ tree.height := by
  by_contra low
  have power := Nat.pow_le_pow_right (Nat.lt_of_lt_of_le (Nat.succ_pos 3) build.four_le_capacity)
    (show tree.height + 1 ≤ height by omega)
  have room := wf.length_le
  omega

end Heights

/-- The iterator yields the items that the filter accepts, in order and each with the sum of all the items before it. -/
theorem filterCursor_yields [Add S] [Zero S] [Item T S] [LawfulSummary S] [Dimension U S] [LawfulDimension U S]
    {build : Build} (tree : Tree build T) {filterNode : S → Bool} (exact : FilterExact T filterNode)
    (low : tree.node.height < stackCapacity ∨ ∀ item ∈ tree.node.toList, filterNode (Item.summary item) = false) :
    ∃ cursor : FilterCursor T S U, FilterCursor.new tree.node filterNode = some cursor ∧
      ∀ count, cursor.take build count = some ((matching filterNode [] tree.node.toList).take count) := by
  have taken := FilterCursor.new_take (U := U) exact tree.wf low
  obtain ⟨cursor, isNew, -⟩ := Option.bind_eq_some_iff.mp (taken 0)
  refine ⟨cursor, isNew, fun count => ?_⟩
  have taken := taken count
  rwa [isNew] at taken

namespace Count

theorem counts (items : List Unit) : sum (items.map Item.summary) = items.length := by
  induction items using List.reverseRecOn with
  | nil => rfl
  | append_singleton items item ih =>
    rw [map_append, sum_append _ (by simp), ih, length_append]
    rfl

def positive (count : ℕ) : Bool := decide (0 < count)

theorem filterExact_positive (items : List Unit) :
    positive (sum (items.map Item.summary)) = items.any fun item => positive (Item.summary item) := by
  rw [counts]
  cases items <;> simp [positive, Item.summary]

def testing : Build := ⟨true, true⟩

def counting (count : ℕ) : Tree testing Unit where
  node := (Node.new.extend testing (List.replicate count ())).getD Node.new
  wf := by
    obtain ⟨result, extended, wf, -⟩ := Node.extend_spec (.new testing) (List.replicate count ())
    rw [extended]
    exact wf

theorem counting_length (count : ℕ) : (counting count).node.toList.length = count := by
  obtain ⟨result, extended, -, isList⟩ := Node.extend_spec (S := ℕ) (.new testing) (List.replicate count ())
  have isNode : (counting count).node = result := congrArg (Option.getD · Node.new) extended
  rw [isNode, isList]
  simp [Node.new]

theorem counting_height {count : ℕ} (many : testing.capacity ^ stackCapacity < count) :
    stackCapacity ≤ (counting count).node.height :=
  (counting count).wf.le_height (by rwa [counting_length])

/-- The filter accepts every item, and no cursor yields them. -/
theorem not_filterCursor_yields :
    (∀ items : List Unit, positive (sum (items.map Item.summary)) = items.any fun item => positive (Item.summary item)) ∧
      ¬ ∃ cursor : FilterCursor Unit ℕ ℕ,
        FilterCursor.new (counting (testing.capacity ^ stackCapacity + 1)).node positive = some cursor ∧
          ∀ turns, cursor.take testing turns =
            some ((matching positive [] (counting (testing.capacity ^ stackCapacity + 1)).node.toList).take turns) := by
  refine ⟨filterExact_positive, fun ⟨cursor, isNew, _⟩ => ?_⟩
  have exact : FilterExact Unit positive := fun items _ => filterExact_positive items
  have filled : (counting (testing.capacity ^ stackCapacity + 1)).node.toList ≠ [] :=
    ne_nil_of_length_pos (by rw [counting_length]; exact Nat.succ_pos _)
  have full := FilterCursor.new_full (U := ℕ) exact (counting _).wf (counting_height (Nat.lt_succ_self _))
    ⟨(), exists_mem_of_ne_nil _ filled |>.choose_spec, rfl⟩
  rw [full] at isNew
  cases isNew

theorem filterCursor_yields_five :
    ∃ cursor : FilterCursor Unit ℕ ℕ, FilterCursor.new (counting 5).node positive = some cursor ∧
      ∀ turns, cursor.take testing turns = some ((matching positive [] (counting 5).node.toList).take turns) :=
  filterCursor_yields (counting 5) (fun items _ => filterExact_positive items) (.inl (by decide +kernel))

end Count

end Warp.SumTree
