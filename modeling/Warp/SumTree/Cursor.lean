import Warp.SumTree.Node

namespace Warp.SumTree

universe u

class Dimension (D S : Type u) where
  default : D
  addSummary : D → S → D

instance {S : Type u} : Dimension PUnit S where
  default := ⟨⟩
  addSummary _ _ := ⟨⟩

inductive SeekBias where
  | left
  | right
  deriving DecidableEq

inductive ClampMax where
  | yes
  | no
  deriving DecidableEq

structure StackEntry (T S D U : Type u) where
  tree : Node T S
  index : ℕ
  seekDimension : D
  sumDimension : U

/-- The head of `stack` is its last entry. -/
structure Cursor (T S D U : Type u) where
  tree : Node T S
  stack : List (StackEntry T S D U)
  seekDimension : D
  sumDimension : U
  didSeek : Bool
  atEnd : Bool

def stackCapacity : ℕ := 16

inductive SeekAggregate (T S A : Type u) where
  | none
  | slice (tree : Node T S)
  | summary (dimension : A)

variable {T S D U A : Type u}

def sliceFrom {α : Type u} (list : List α) (start : ℕ) : Option (List α) :=
  if start ≤ list.length then some (list.drop start) else none

def sliceTo {α : Type u} (list : List α) (stop : ℕ) : Option (List α) :=
  if stop ≤ list.length then some (list.take stop) else none

namespace Node

mutual

def rightmostLeaf : Node T S → Option (Node T S)
  | internal _ _ _ childTrees => rightmostLeafOfLast childTrees
  | leaf summary items itemSummaries => some (leaf summary items itemSummaries)

def rightmostLeafOfLast : List (Node T S) → Option (Node T S)
  | [] => none
  | [tree] => rightmostLeaf tree
  | _ :: next :: rest => rightmostLeafOfLast (next :: rest)

end

def last (self : Node T S) : Option (Option T) := do
  let leaf ← self.rightmostLeaf
  let items ← leaf.items?
  return items.getLast?

def extent [Dimension D S] (self : Node T S) : D := Dimension.addSummary (Dimension.default S) self.summary

end Node

section Seeking

variable [Add S] [Zero S] [Dimension A S]

def SeekAggregate.passTree (build : Build) (child : Node T S) (summary : S) :
    SeekAggregate T S A → Option (SeekAggregate T S A)
  | none => some none
  | slice tree => (tree.pushTree build child).map slice
  | .summary dimension => some (.summary (Dimension.addSummary dimension summary))

structure SliceLeaf (T S : Type u) where
  items : List T
  itemSummaries : List S
  summary : Option S

def SliceLeaf.new : SeekAggregate T S A → SliceLeaf T S
  | .slice _ => ⟨[], [], some 0⟩
  | _ => ⟨[], [], none⟩

def SeekAggregate.passItem (build : Build) (item : T) (itemSummary : S) :
    SeekAggregate T S A × SliceLeaf T S → Option (SeekAggregate T S A × SliceLeaf T S)
  | (none, leaf) => some (none, leaf)
  | (slice tree, leaf) => do
    let items ← ArrayVec.push build.capacity leaf.items item
    let itemSummaries ← ArrayVec.push build.capacity leaf.itemSummaries itemSummary
    let summary ← leaf.summary
    return (slice tree, ⟨items, itemSummaries, some (summary + itemSummary)⟩)
  | (.summary dimension, leaf) => some (.summary (Dimension.addSummary dimension itemSummary), leaf)

def SeekAggregate.pushLeaf (build : Build) (leaf : SliceLeaf T S) :
    SeekAggregate T S A → Option (SeekAggregate T S A)
  | slice tree => do
    let summary ← leaf.summary
    let tree ← tree.pushTree build (.leaf summary leaf.items leaf.itemSummaries)
    return slice tree
  | aggregate => some aggregate

def SeekAggregate.pushNonemptyLeaf (build : Build) (leaf : SliceLeaf T S) (aggregate : SeekAggregate T S A) :
    Option (SeekAggregate T S A) :=
  if leaf.items.isEmpty then some aggregate else aggregate.pushLeaf build leaf

/-- The comparison of `seek_internal`: whether the target lies beyond a child that ends at `childEnd`. -/
def targetBeyond [LinearOrder D] (target : D) (bias : SeekBias) (clampMax : ClampMax) (atLastItem : Bool)
    (childEnd : D) : Bool :=
  let clamped := if atLastItem && decide (clampMax = .yes) then min target childEnd else target
  decide (childEnd < clamped) || (decide (clamped = childEnd) && decide (bias = .right))

end Seeking

def StackEntry.advance [Dimension D S] [Dimension U S] (entry : StackEntry T S D U) (summary : S) :
    StackEntry T S D U :=
  { entry with
    index := entry.index + 1
    seekDimension := Dimension.addSummary entry.seekDimension summary
    sumDimension := Dimension.addSummary entry.sumDimension summary }

namespace Cursor

variable [Dimension D S] [Dimension U S]

def new (tree : Node T S) : Cursor T S D U := ⟨tree, [], Dimension.default S, Dimension.default S, false, false⟩

def reset (self : Cursor T S D U) : Cursor T S D U :=
  { self with
    didSeek := false
    atEnd := false
    stack := []
    seekDimension := Dimension.default S
    sumDimension := Dimension.default S }

omit [Dimension D S] [Dimension U S] in
def seekPosition (self : Cursor T S D U) : D := self.seekDimension

omit [Dimension D S] [Dimension U S] in
def start (self : Cursor T S D U) : U := self.sumDimension

def addSummary (self : Cursor T S D U) (summary : S) : Cursor T S D U :=
  { self with
    seekDimension := Dimension.addSummary self.seekDimension summary
    sumDimension := Dimension.addSummary self.sumDimension summary }

def push (self : Cursor T S D U) (tree : Node T S) (index : ℕ) : Option (Cursor T S D U) :=
  if self.stack.length < stackCapacity then
    some { self with stack := ⟨tree, index, self.seekDimension, self.sumDimension⟩ :: self.stack }
  else none

omit [Dimension D S] [Dimension U S] in
def assertDidSeek (build : Build) (self : Cursor T S D U) : Option PUnit.{u + 1} :=
  if build.debugAssertions && !self.didSeek then none else some ⟨⟩

omit [Dimension D S] [Dimension U S] in
def item (build : Build) (self : Cursor T S D U) : Option (Option T) := do
  self.assertDidSeek build
  match self.stack with
  | [] => return none
  | entry :: _ =>
    match entry.tree with
    | .leaf _ items _ => if entry.index = items.length then return none else return some (← items[entry.index]?)
    | .internal .. => return none

omit [Dimension D S] [Dimension U S] in
def itemSummary (build : Build) (self : Cursor T S D U) : Option (Option S) := do
  self.assertDidSeek build
  match self.stack with
  | [] => return none
  | entry :: _ =>
    match entry.tree with
    | .leaf _ _ itemSummaries =>
      if entry.index = itemSummaries.length then return none else return some (← itemSummaries[entry.index]?)
    | .internal .. => return none

omit [Dimension D S] [Dimension U S] in
def prevLeaf : List (StackEntry T S D U) → Option (Option (Node T S))
  | [] => some none
  | entry :: stack =>
    if entry.index ≠ 0 then
      match entry.tree with
      | .internal _ _ _ childTrees => do
        let child ← childTrees[entry.index - 1]?
        let leaf ← child.rightmostLeaf
        return some leaf
      | .leaf .. => some none
    else prevLeaf stack

omit [Dimension D S] [Dimension U S] in
def prevItem (build : Build) (self : Cursor T S D U) : Option (Option T) := do
  self.assertDidSeek build
  match self.stack with
  | [] => if self.atEnd then self.tree.last else return none
  | entry :: stack =>
    if entry.index = 0 then
      match ← prevLeaf stack with
      | none => return none
      | some leaf => return some (← (← leaf.items?).getLast?)
    else
      match entry.tree with
      | .leaf _ items _ => return some (← items[entry.index - 1]?)
      | .internal .. => return none

/-- The loop of `descend_to_first_item` over one node: the index of the first summary that the filter accepts. -/
def skipFiltered (filterNode : S → Bool) : List S → ℕ → Cursor T S D U → Cursor T S D U × Option ℕ
  | [], _, self => (self, none)
  | summary :: summaries, index, self =>
    if filterNode summary then (self, some index)
    else skipFiltered filterNode summaries (index + 1) (self.addSummary summary)

mutual

def descendToFirstItem (filterNode : S → Bool) (self : Cursor T S D U) : Node T S → Option (Cursor T S D U)
  | .internal height summary childSummaries childTrees =>
    match skipFiltered filterNode childSummaries 0 { self with didSeek := true } with
    | (self, none) => some self
    | (self, some newIndex) => do
      let self ← self.push (.internal height summary childSummaries childTrees) newIndex
      descendToFirstItemOfChild filterNode self childTrees newIndex
  | .leaf summary items itemSummaries =>
    match skipFiltered filterNode itemSummaries 0 { self with didSeek := true } with
    | (self, none) => some self
    | (self, some newIndex) => self.push (.leaf summary items itemSummaries) newIndex

/-- `descend_to_first_item` goes on in `child_trees[index]`. -/
def descendToFirstItemOfChild (filterNode : S → Bool) (self : Cursor T S D U) :
    List (Node T S) → ℕ → Option (Cursor T S D U)
  | [], _ => none
  | tree :: _, 0 => descendToFirstItem filterNode self tree
  | _ :: trees, index + 1 => descendToFirstItemOfChild filterNode self trees index

end

mutual

def descendToLastItem (self : Cursor T S D U) : Node T S → Option (Cursor T S D U)
  | .internal height summary childSummaries childTrees => do
    if childSummaries.length = 0 ∨ childTrees.length = 0 then none
    else
      let self := childSummaries.dropLast.foldl addSummary { self with didSeek := true }
      let self ← self.push (.internal height summary childSummaries childTrees) (childTrees.length - 1)
      descendToLastItemOfLast self childTrees
  | .leaf summary items itemSummaries =>
    let lastIndex := itemSummaries.length - 1
    let self := (itemSummaries.take lastIndex).foldl addSummary { self with didSeek := true }
    self.push (.leaf summary items itemSummaries) lastIndex

/-- `descend_to_last_item` goes on in `child_trees.last().unwrap()`. -/
def descendToLastItemOfLast (self : Cursor T S D U) : List (Node T S) → Option (Cursor T S D U)
  | [] => none
  | [tree] => descendToLastItem self tree
  | _ :: next :: rest => descendToLastItemOfLast self (next :: rest)

end

def prevLoop (self : Cursor T S D U) : List (StackEntry T S D U) → Option (Cursor T S D U)
  | [] => some { self with stack := [] }
  | entry :: stack =>
    if entry.index > 0 then do
      let newIndex := entry.index - 1
      let self : Cursor T S D U := match stack with
        | parent :: _ =>
          { self with
            stack := stack
            seekDimension := parent.seekDimension
            sumDimension := parent.sumDimension }
        | [] =>
          { self with
            stack := stack
            seekDimension := Dimension.default S
            sumDimension := Dimension.default S }
      match entry.tree with
      | .internal _ _ childSummaries childTrees => do
        let before ← sliceTo childSummaries newIndex
        let self ← (before.foldl addSummary self).push entry.tree newIndex
        let child ← childTrees[newIndex]?
        self.descendToLastItem child
      | .leaf _ _ itemSummaries => do
        let before ← sliceTo itemSummaries newIndex
        (before.foldl addSummary self).push entry.tree newIndex
    else prevLoop self stack

def prev (build : Build) (self : Cursor T S D U) : Option (Cursor T S D U) := do
  self.assertDidSeek build
  if self.atEnd then
    let self ← descendToLastItem
      { self with seekDimension := Dimension.default S, sumDimension := Dimension.default S } self.tree
    return { self with atEnd := false }
  else self.prevLoop self.stack

/-- The loop of `next_internal` over `child_summaries[entry.index..]`. -/
def nextChild (filterNode : S → Bool) (self : Cursor T S D U) (entry : StackEntry T S D U) :
    List S → Cursor T S D U × StackEntry T S D U
  | [] => (self, entry)
  | [summary] => (self, entry.advance summary)
  | summary :: nextSummary :: rest =>
    if filterNode nextSummary then (self, entry.advance summary)
    else nextChild filterNode (self.addSummary nextSummary) (entry.advance summary) (nextSummary :: rest)

/-- The loop of `next_internal` over `item_summaries[entry.index..]`; the flag tells whether it returned at an item. -/
def nextItem (filterNode : S → Bool) (self : Cursor T S D U) (entry : StackEntry T S D U) :
    List S → Option (Cursor T S D U × StackEntry T S D U × Bool)
  | [] => none
  | [summary] => some (self.addSummary summary, entry.advance summary, false)
  | summary :: nextSummary :: rest =>
    if filterNode nextSummary then some (self.addSummary summary, entry.advance summary, true)
    else nextItem filterNode (self.addSummary summary) (entry.advance summary) (nextSummary :: rest)

def nextLoop (filterNode : S → Bool) (self : Cursor T S D U) : List (StackEntry T S D U) → Option (Cursor T S D U)
  | [] => some { self with stack := [], atEnd := true }
  | entry :: stack =>
    match entry.tree with
    | .internal _ _ childSummaries childTrees => do
      let (self, entry) := nextChild filterNode self entry (childSummaries.drop entry.index)
      match childTrees[entry.index]? with
      | some subtree =>
        let self ← descendToFirstItem filterNode { self with stack := entry :: stack } subtree
        return { self with atEnd := self.stack.isEmpty }
      | none => nextLoop filterNode self stack
    | .leaf _ _ itemSummaries => do
      let (self, entry, returned) ← nextItem filterNode self entry (itemSummaries.drop entry.index)
      if returned then return { self with stack := entry :: stack }
      else nextLoop filterNode self stack

def nextInternal (build : Build) (filterNode : S → Bool) (self : Cursor T S D U) : Option (Cursor T S D U) := do
  self.assertDidSeek build
  if self.stack.isEmpty then
    let self ← if self.atEnd then some self else descendToFirstItem filterNode self self.tree
    return { self with atEnd := self.stack.isEmpty }
  else nextLoop filterNode self self.stack

def next (build : Build) (self : Cursor T S D U) : Option (Cursor T S D U) := nextInternal build (fun _ => true) self

/-- The loops of `seek_internal` over the children of one node: they are passed while `passes` holds of their index and
    their end. The result tells the index of the child at which the loop stopped. -/
def passWhile {E P : Type u} (passes : ℕ → D → Bool) (pass : E → S → P → Option P) :
    ℕ → List (E × S) → Cursor T S D U → P → Option (ℕ × Cursor T S D U × P)
  | index, [], self, passed => some (index, self, passed)
  | index, (child, summary) :: rest, self, passed =>
    if passes index (Dimension.addSummary self.seekDimension summary) then do
      let passed ← pass child summary passed
      passWhile passes pass (index + 1) rest (self.addSummary summary) passed
    else some (index, self, passed)

section Seeking

variable [Add S] [Zero S] [Dimension A S] [LinearOrder D]

/-- The first half of `seek_internal`, for a cursor that has been placed: the stack is unwound up to the node whose
    child contains the target. -/
def resume (build : Build) (target : D) (bias : SeekBias) (clampMax : ClampMax) (self : Cursor T S D U)
    (aggregate : SeekAggregate T S A) :
    List (StackEntry T S D U) → Option (Cursor T S D U × SeekAggregate T S A × Option (Node T S))
  | [] => some ({ self with stack := [] }, aggregate, none)
  | entry :: stack =>
    match entry.tree with
    | .internal _ _ childSummaries childTrees => do
      let trees ← sliceFrom childTrees (entry.index + 1)
      let summaries ← sliceFrom childSummaries (entry.index + 1)
      let passes := fun index => targetBeyond target bias clampMax (index == childTrees.length - 1)
      let (index, self, aggregate) ← passWhile passes (SeekAggregate.passTree build) (entry.index + 1)
        (trees.zip summaries) self aggregate
      match childTrees[index]? with
      | some childTree => return ({ self with stack := { entry with index } :: stack }, aggregate, some childTree)
      | none => resume build target bias clampMax self aggregate stack
    | .leaf _ items itemSummaries => do
      let restItems ← sliceFrom items entry.index
      let restSummaries ← sliceFrom itemSummaries entry.index
      let passes := fun index => targetBeyond target bias clampMax (index == items.length - 1)
      let (index, self, aggregate, sliceLeaf) ← passWhile passes (SeekAggregate.passItem build) entry.index
        (restItems.zip restSummaries) self (aggregate, SliceLeaf.new aggregate)
      if index < items.length then
        let aggregate ← aggregate.pushLeaf build sliceLeaf
        return ({ self with stack := { entry with index } :: stack }, aggregate, none)
      else
        let aggregate ← aggregate.pushNonemptyLeaf build sliceLeaf
        resume build target bias clampMax self aggregate stack

/-- `target_beyond_node` in the second half of `seek_internal`: the last child ends at least where the node does. -/
def targetBeyondNode (target : D) (bias : SeekBias) (clampMax : ClampMax) (maxEnd : D) (count index : ℕ)
    (childEnd : D) : Bool :=
  let atLastItem := index == count - 1
  targetBeyond target bias clampMax atLastItem (if atLastItem then max childEnd maxEnd else childEnd)

/-- Whether the descent passes a child: below the root (the stack is not empty) it never passes the last one. -/
def descentPasses (target : D) (bias : SeekBias) (clampMax : ClampMax) (isRoot : Bool) (maxEnd : D) (count index : ℕ)
    (childEnd : D) : Bool :=
  let atLastItem := index == count - 1
  (isRoot || !atLastItem) && targetBeyondNode target bias clampMax maxEnd count index childEnd

mutual

/-- The second half of `seek_internal`, the descent; the flag is `is_item_after_current_subtree`. -/
def descend (build : Build) (target : D) (bias : SeekBias) (clampMax : ClampMax) (self : Cursor T S D U)
    (aggregate : SeekAggregate T S A) : Node T S → Option (Cursor T S D U × SeekAggregate T S A × Bool)
  | .internal height summary childSummaries childTrees => do
    let maxEnd := Dimension.addSummary self.seekDimension summary
    let beyond := targetBeyondNode target bias clampMax maxEnd childTrees.length
    let passes := descentPasses target bias clampMax self.stack.isEmpty maxEnd childTrees.length
    let (index, self, aggregate) ← passWhile passes (SeekAggregate.passTree build) 0
      (childTrees.zip childSummaries) self aggregate
    match childSummaries[index]? with
    | none => return (self, aggregate, false)
    | some childSummary =>
      let isBeyond := beyond index (Dimension.addSummary self.seekDimension childSummary)
      let self ← self.push (.internal height summary childSummaries childTrees) index
      let (self, aggregate, after) ← descendChild build target bias clampMax self aggregate childTrees index
      return (self, aggregate, isBeyond || after)
  | .leaf summary items itemSummaries => do
    let maxEnd := Dimension.addSummary self.seekDimension summary
    let beyond := targetBeyondNode target bias clampMax maxEnd items.length
    let passes := descentPasses target bias clampMax self.stack.isEmpty maxEnd items.length
    let (index, self, aggregate, sliceLeaf) ← passWhile passes (SeekAggregate.passItem build) 0
      (items.zip itemSummaries) self (aggregate, SliceLeaf.new aggregate)
    let (self, after) ← match itemSummaries[index]? with
      | none => pure (self, false)
      | some itemSummary => do
        let isBeyond := beyond index (Dimension.addSummary self.seekDimension itemSummary)
        let self := if isBeyond then self.addSummary itemSummary else self
        let self ← self.push (.leaf summary items itemSummaries) index
        pure (self, isBeyond)
    let aggregate ← aggregate.pushNonemptyLeaf build sliceLeaf
    return (self, aggregate, after)

def descendChild (build : Build) (target : D) (bias : SeekBias) (clampMax : ClampMax) (self : Cursor T S D U)
    (aggregate : SeekAggregate T S A) :
    List (Node T S) → ℕ → Option (Cursor T S D U × SeekAggregate T S A × Bool)
  | [], _ => none
  | tree :: _, 0 => descend build target bias clampMax self aggregate tree
  | _ :: trees, index + 1 => descendChild build target bias clampMax self aggregate trees index

end

def locate (build : Build) (target : D) (bias : SeekBias) (aggregate : SeekAggregate T S A) (clampMax : ClampMax)
    (self : Cursor T S D U) : Option (Cursor T S D U × SeekAggregate T S A × Bool) := do
  let (self, aggregate, containingSubtree) ←
    if self.didSeek then resume build target bias clampMax self aggregate self.stack
    else some ({ self with didSeek := true }, aggregate, some self.tree)
  match containingSubtree with
  | some subtree => descend build target bias clampMax self aggregate subtree
  | none => some (self, aggregate, false)

def seekInternal (build : Build) (target : D) (bias : SeekBias) (aggregate : SeekAggregate T S A)
    (clampMax : ClampMax) (self : Cursor T S D U) : Option (Cursor T S D U × SeekAggregate T S A × Bool) := do
  if build.debugAssertions && decide (target < self.seekDimension) then none
  else
    let (self, aggregate, isItemAfterCurrentSubtree) ← locate build target bias aggregate clampMax self
    if isItemAfterCurrentSubtree then
      let self ← self.next build
      return (self, aggregate, decide (target = self.seekDimension))
    else
      let self := { self with atEnd := self.stack.isEmpty }
      if bias = .left then
        let childEnd := match ← self.itemSummary build with
          | some summary => Dimension.addSummary self.seekDimension summary
          | none => self.seekDimension
        return (self, aggregate, decide (target = childEnd))
      else return (self, aggregate, decide (target = self.seekDimension))

def seek (build : Build) (self : Cursor T S D U) (pos : D) (bias : SeekBias) : Option (Cursor T S D U × Bool) := do
  let (self, _, found) ← seekInternal (A := PUnit) build pos bias .none .no self.reset
  return (self, found)

def seekClamped (build : Build) (self : Cursor T S D U) (pos : D) (bias : SeekBias) : Option (Cursor T S D U) := do
  let (self, _, _) ← seekInternal (A := PUnit) build pos bias .none .yes self.reset
  return self

def slice (build : Build) (self : Cursor T S D U) (stop : D) (bias : SeekBias) :
    Option (Cursor T S D U × Node T S) := do
  let (self, aggregate, _) ← seekInternal (A := PUnit) build stop bias (.slice Node.new) .no self
  match aggregate with
  | .slice tree => return (self, tree)
  | _ => none

def suffix (build : Build) (self : Cursor T S D U) : Option (Cursor T S D U × Node T S) :=
  self.slice build self.tree.extent .right

def summary (build : Build) (self : Cursor T S D U) (stop : D) (bias : SeekBias) : Option (Cursor T S D U × A) := do
  let (self, aggregate, _) ← seekInternal build stop bias (.summary (Dimension.default S)) .no self
  match aggregate with
  | .summary dimension => return (self, dimension)
  | _ => none

end Seeking

end Cursor

end Warp.SumTree
