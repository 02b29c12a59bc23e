import Warp.SumTree.Cursor
import Warp.SumTree.Refinement

namespace Warp.SumTree

open List

universe u

variable {T S D U : Type u}

/-- A dimension whose value after a node does not depend on how the node's summary was added up. The summary of no items need
    only be neutral at the start: a key takes over the summary's. -/
class LawfulDimension (D S : Type u) [Add S] [Zero S] [Dimension D S] : Prop where
  addSummary_default : Dimension.addSummary (Dimension.default S : D) (0 : S) = Dimension.default S
  addSummary_add (d : D) (s t : S) :
    Dimension.addSummary d (s + t) = Dimension.addSummary (Dimension.addSummary d s) t

def dimensionOf (D : Type u) [Item T S] [Dimension D S] (items : List T) : D :=
  items.foldl (fun d item => Dimension.addSummary d (Item.summary item)) (Dimension.default S)

section Dimensions

variable [Item T S] [Dimension D S]

@[simp] theorem dimensionOf_nil : dimensionOf D ([] : List T) = Dimension.default S := rfl

theorem dimensionOf_append (left right : List T) :
    dimensionOf D (left ++ right) = (right.map Item.summary).foldl Dimension.addSummary (dimensionOf D left) := by
  simp [dimensionOf, foldl_map]

theorem addSummary_item (left : List T) (item : T) :
    Dimension.addSummary (dimensionOf D left) (Item.summary item) = dimensionOf D (left ++ [item]) := by
  simp [dimensionOf_append]

end Dimensions

section Lawful

variable [Add S] [Zero S] [LawfulSummary S] [Dimension D S] [LawfulDimension D S]

theorem addSummary_sum (d : D) {summaries : List S} (some : summaries ≠ []) :
    Dimension.addSummary d (sum summaries) = summaries.foldl Dimension.addSummary d := by
  induction summaries using List.reverseRecOn with
  | nil => exact absurd rfl some
  | append_singleton summaries last ih =>
    by_cases first : summaries = []
    · subst first
      rw [nil_append, sum_singleton]
      rfl
    · rw [sum_append _ (by simp), sum_singleton, LawfulDimension.addSummary_add, ih first, List.foldl_append]
      rfl

theorem addSummary_dimensionOf [Item T S] (left : List T) {right : List T} (some : right ≠ []) :
    Dimension.addSummary (dimensionOf D left) (sum (right.map Item.summary)) = dimensionOf D (left ++ right) := by
  rw [addSummary_sum _ (by simpa using some), dimensionOf_append]

theorem addSummary_items [Item T S] (items : List T) :
    Dimension.addSummary (Dimension.default S) (sum (items.map Item.summary)) = dimensionOf D items := by
  by_cases some : items = []
  · subst some
    exact LawfulDimension.addSummary_default
  · exact addSummary_dimensionOf [] some

end Lawful

def StackEntry.itemsBefore (entry : StackEntry T S D U) : List T := (entry.tree.parts.take entry.index).flatten

def StackEntry.itemsAfter (entry : StackEntry T S D U) : List T := (entry.tree.parts.drop (entry.index + 1)).flatten

def itemsBefore : List (StackEntry T S D U) → List T
  | [] => []
  | entry :: stack => itemsBefore stack ++ entry.itemsBefore

def itemsAfter : List (StackEntry T S D U) → List T
  | [] => []
  | entry :: stack => entry.itemsAfter ++ itemsAfter stack

@[simp] theorem itemsBefore_nil : itemsBefore ([] : List (StackEntry T S D U)) = [] := rfl

@[simp] theorem itemsBefore_cons (entry : StackEntry T S D U) (stack : List (StackEntry T S D U)) :
    itemsBefore (entry :: stack) = itemsBefore stack ++ entry.itemsBefore := rfl

/-- The stack leads from the root down to `node`. -/
inductive Path (root : Node T S) : Node T S → List (StackEntry T S D U) → Prop
  | root : Path root root []
  | child {height : ℕ} {summary : S} {childSummaries : List S} {childTrees : List (Node T S)}
    {stack : List (StackEntry T S D U)} {index : ℕ} {tree : Node T S} {seekDimension : D} {sumDimension : U}
    (above : Path root (.internal height summary childSummaries childTrees) stack)
    (at_index : childTrees[index]? = some tree) :
    Path root tree (⟨.internal height summary childSummaries childTrees, index, seekDimension, sumDimension⟩ :: stack)

inductive OnItem (root : Node T S) : List (StackEntry T S D U) → T → Prop
  | intro {summary : S} {items : List T} {itemSummaries : List S} {stack : List (StackEntry T S D U)} {index : ℕ}
    {item : T} {seekDimension : D} {sumDimension : U}
    (above : Path root (.leaf summary items itemSummaries) stack)
    (at_index : items[index]? = some item) :
    OnItem root (⟨.leaf summary items itemSummaries, index, seekDimension, sumDimension⟩ :: stack) item

@[simp] theorem flatten_singletons {α : Type u} (list : List α) : (list.map ([·])).flatten = list := by
  rw [← flatMap_def, flatMap_singleton']

theorem flatten_split {α : Type u} {lists : List (List α)} {index : ℕ} {list : List α} (found : lists[index]? = some list) :
    lists.flatten = (lists.take index).flatten ++ list ++ (lists.drop (index + 1)).flatten := by
  obtain ⟨bound, rfl⟩ := List.getElem?_eq_some_iff.mp found
  rw [← flatten_concat, ← flatten_append, append_assoc, singleton_append,
    ← drop_eq_getElem_cons bound, take_append_drop]

namespace Path

theorem toList {root node : Node T S} {stack : List (StackEntry T S D U)} (path : Path root node stack) :
    root.toList = itemsBefore stack ++ node.toList ++ itemsAfter stack := by
  induction path with
  | root => simp [itemsBefore, itemsAfter]
  | @child height summary childSummaries childTrees stack index tree _ _ above at_index ih =>
    have found : (childTrees.map Node.toList)[index]? = some tree.toList := by simp [at_index]
    have split := flatten_split found
    rw [ih, Node.toList_internal, flatMap_def, split]
    simp [itemsBefore, itemsAfter, StackEntry.itemsBefore, StackEntry.itemsAfter, Node.parts]

end Path

theorem OnItem.toList {root : Node T S} {stack : List (StackEntry T S D U)} {item : T} (on : OnItem root stack item) :
    root.toList = itemsBefore stack ++ item :: itemsAfter stack := by
  cases on with
  | @intro summary items itemSummaries stack index _ _ _ above at_index =>
    have found : (items.map ([·]))[index]? = some [item] := by simp [at_index]
    have split := flatten_split found
    simp only [flatten_singletons] at split
    rw [above.toList, Node.toList_leaf]
    nth_rewrite 1 [split]
    simp [itemsBefore, itemsAfter, StackEntry.itemsBefore, StackEntry.itemsAfter, Node.parts]

section WellFormed

variable [Add S] [Zero S] [Item T S]

variable {build : Build} {root : Node T S}

variable {stack : List (StackEntry T S D U)}

theorem Path.wf {node : Node T S} (path : Path root node stack) (rootWF : root.WF build) : node.WF build := by
  induction path with
  | root => exact rootWF
  | child above at_index ih =>
    cases ih with
    | internal some bound wf level nonempty => exact wf _ (mem_of_getElem? at_index)

theorem Path.depth {node : Node T S} (path : Path root node stack) (rootWF : root.WF build) :
    stack.length + node.height = root.height := by
  induction path with
  | root => simp
  | child above at_index ih =>
    cases above.wf rootWF with
    | internal some bound wf level nonempty =>
      have child := level _ (mem_of_getElem? at_index)
      simp only [Node.height_internal] at ih
      simp only [length_cons]
      omega

end WellFormed

section Dimensions

variable [Item T S] [Dimension D S] [Dimension U S]

/-- The entry caches the dimensions of the items before what it points at. -/
def Cached (entry : StackEntry T S D U) (stack : List (StackEntry T S D U)) : Prop :=
  entry.seekDimension = dimensionOf D (SumTree.itemsBefore (entry :: stack)) ∧
    entry.sumDimension = dimensionOf U (SumTree.itemsBefore (entry :: stack))

def AllCached : List (StackEntry T S D U) → Prop
  | [] => True
  | entry :: stack => Cached entry stack ∧ AllCached stack

namespace Cursor

def spanning (self : Cursor T S D U) (items : List T) : Cursor T S D U :=
  { self with seekDimension := dimensionOf D items, sumDimension := dimensionOf U items }

section Over

variable (self : Cursor T S D U) (items : List T)

@[simp] theorem spanning_tree : (self.spanning items).tree = self.tree := rfl

@[simp] theorem spanning_stack : (self.spanning items).stack = self.stack := rfl

@[simp] theorem spanning_didSeek : (self.spanning items).didSeek = self.didSeek := rfl

@[simp] theorem spanning_atEnd : (self.spanning items).atEnd = self.atEnd := rfl

@[simp] theorem spanning_seekDimension : (self.spanning items).seekDimension = dimensionOf D items := rfl

@[simp] theorem spanning_sumDimension : (self.spanning items).sumDimension = dimensionOf U items := rfl

theorem spanning_addSummary_item (item : T) :
    (self.spanning items).addSummary (Item.summary item) = self.spanning (items ++ [item]) := by
  simp only [addSummary, spanning, addSummary_item]

theorem spanning_addSummaries_items (right : List T) :
    (right.map Item.summary).foldl addSummary (self.spanning items) = self.spanning (items ++ right) := by
  induction right generalizing items with
  | nil => simp
  | cons item right ih => simp [spanning_addSummary_item, ih]

end Over

section Lawful

variable [Add S] [Zero S] [LawfulSummary S] [LawfulDimension D S] [LawfulDimension U S]

theorem spanning_addSummary (self : Cursor T S D U) (left : List T) {right : List T} (some : right ≠ []) :
    (self.spanning left).addSummary (sum (right.map Item.summary)) = self.spanning (left ++ right) := by
  simp only [addSummary, spanning, addSummary_dimensionOf _ some]

theorem spanning_addSummaries (self : Cursor T S D U) (left : List T) {parts : List (List T)}
    (some : ∀ part ∈ parts, part ≠ []) :
    (parts.map fun part => sum (part.map Item.summary)).foldl addSummary (self.spanning left) =
      self.spanning (left ++ parts.flatten) := by
  induction parts generalizing left with
  | nil => simp
  | cons part parts ih =>
    have later := fun part member => some part (mem_cons_of_mem _ member)
    simp [spanning_addSummary _ _ (some part mem_cons_self), ih _ later]

end Lawful

omit [Item T S] [Dimension D S] [Dimension U S] in
theorem push_of_lt (self : Cursor T S D U) (room : self.stack.length < stackCapacity) (tree : Node T S) (index : ℕ) :
    self.push tree index =
      some { self with stack := ⟨tree, index, self.seekDimension, self.sumDimension⟩ :: self.stack } := by
  simp [push, room]

end Cursor

end Dimensions

end Warp.SumTree
