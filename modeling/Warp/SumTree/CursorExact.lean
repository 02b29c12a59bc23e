import Warp.SumTree.CursorRun

namespace Warp.SumTree

open List

universe u

variable {T S D U A : Type u} [Add S] [Zero S] [Item T S]

namespace Node

omit [Add S] [Zero S] [Item T S] in
theorem rightmostLeafOfLast_append (init : List (Node T S)) (last : Node T S) :
    rightmostLeafOfLast (init ++ [last]) = rightmostLeaf last := by
  induction init with
  | nil => rfl
  | cons tree init ih =>
    cases init with
    | nil => rfl
    | cons next init => exact ih

theorem rightmostLeaf_spec {build : Build} {tree : Node T S} (wf : tree.WF build) :
    ∃ leaf items, tree.rightmostLeaf = some leaf ∧ leaf.items? = some items ∧ items.getLast? = tree.toList.getLast? := by
  induction wf with
  | @leaf items bound => exact ⟨_, items, rfl, rfl, by rw [toList_leaf]⟩
  | @internal height childTrees some bound wf level nonempty ih =>
    obtain ⟨init, last, rfl⟩ := (eq_nil_or_concat childTrees).resolve_left some
    simp only [concat_eq_append] at *
    obtain ⟨leaf, items, found, leafItems, final⟩ := ih last (by simp)
    refine ⟨leaf, items, ?_, leafItems, ?_⟩
    · rw [rightmostLeaf, rightmostLeafOfLast_append, found]
    · rw [final, toList_internal, flatMap_append, flatMap_singleton,
        List.getLast?_append_of_ne_nil _ (nonempty last (by simp))]

end Node

namespace Cursor

theorem prevLeaf_spec {build : Build} {root node : Node T S} (rootWF : root.WF build)
    {entries : List (StackEntry T S D U)} (path : Path root node entries) :
    (itemsBefore entries = [] ∧ prevLeaf entries = some none) ∨
      ∃ leaf items item, prevLeaf entries = some (some leaf) ∧ leaf.items? = some items ∧
        items.getLast? = some item ∧ (itemsBefore entries).getLast? = some item := by
  induction path with
  | root => exact .inl ⟨rfl, rfl⟩
  | @child height summary childSummaries childTrees stack index tree seekDimension sumDimension above at_index ih =>
    cases above.wf rootWF with
    | @internal height _ some bound wf level nonempty =>
    cases index with
    | zero => simpa [StackEntry.itemsBefore, prevLeaf] using ih
    | succ index =>
      have inside : index + 1 < childTrees.length := (List.getElem?_eq_some_iff.mp at_index).1
      obtain ⟨prev, prevAt⟩ : ∃ prev, childTrees[index]? = Option.some prev :=
        ⟨_, List.getElem?_eq_getElem (by omega)⟩
      have member : prev ∈ childTrees := mem_of_getElem? prevAt
      have reached : childTrees.take (index + 1) = childTrees.take index ++ [prev] := by
        rw [take_add_one, prevAt]
        rfl
      obtain ⟨leaf, items, found, leafItems, final⟩ := Node.rightmostLeaf_spec (wf prev member)
      have filled := nonempty prev member
      have lastItem := List.getLast?_eq_some_getLast filled
      refine .inr ⟨leaf, items, prev.toList.getLast filled, ?_, leafItems, by rw [final, lastItem], ?_⟩
      · simp [prevLeaf, prevAt, found]
      · have before : itemsBefore (⟨.internal (height + 1) (sum (childTrees.map Node.summary))
            (childTrees.map Node.summary) childTrees, index + 1, seekDimension, sumDimension⟩ :: stack) =
            itemsBefore stack ++ (childTrees.take index).flatMap Node.toList ++ prev.toList := by
          simp [StackEntry.itemsBefore, Node.parts, ← map_take, ← flatMap_def, reached]
        rw [before, List.getLast?_append_of_ne_nil _ filled, lastItem]

end Cursor

section Observations

variable [Dimension D S] [Dimension U S] {build : Build} {root : Node T S} (rootWF : root.WF build)
  {cursor : Cursor T S D U} {place : Place} (isAt : IsAt root cursor place)
  (seeked : cursor.assertDidSeek build = some ⟨⟩)

include rootWF isAt seeked

theorem IsAt.item_eq : cursor.item build = some (place.item root.toList) := by
  unfold Cursor.item
  rw [seeked]
  cases isAt with
  | fresh => rfl
  | off => rfl
  | emptied empty =>
    have leaf := empty_root rootWF empty
    subst leaf
    rfl
  | @item seek sum stack item on =>
    have split := on.toList
    have found : (Place.at (itemsBefore stack).length).item root.toList = some item := by
      simp [Place.item, split]
    rw [found]
    cases on with
    | @intro summary items itemSummaries stack index item _ _ above at_index =>
      have inside : index ≠ items.length := Nat.ne_of_lt (List.getElem?_eq_some_iff.mp at_index).1
      simp [inside, at_index]
  | «end» => simp [Place.item]

theorem IsAt.prevItem_eq : cursor.prevItem build = some (place.prevItem root.toList) := by
  unfold Cursor.prevItem
  rw [seeked]
  cases isAt with
  | fresh => rfl
  | off => rfl
  | emptied empty => simp [Place.prevItem, Cursor.prevLeaf]
  | @item seek sum stack item on =>
    have split := on.toList
    have last : (Place.at (itemsBefore stack).length).prevItem root.toList = (itemsBefore stack).getLast? := by
      rw [Place.prevItem, split]
      by_cases empty : itemsBefore stack = []
      · simp [empty]
      · have some := List.length_pos_iff.mpr empty
        rw [if_neg (by omega), List.getElem?_append_left (by omega), List.getLast?_eq_getElem?]
    rw [last]
    cases on with
    | @intro summary items itemSummaries stack index item _ _ above at_index =>
      cases index with
      | zero =>
        rcases Cursor.prevLeaf_spec rootWF above with ⟨empty, found⟩ | ⟨leaf, items, item, found, leafItems, final, before⟩
        · simp [found, empty, StackEntry.itemsBefore]
        · simp [found, leafItems, final, before, StackEntry.itemsBefore]
      | succ index =>
        have inside : index + 1 < items.length := (List.getElem?_eq_some_iff.mp at_index).1
        obtain ⟨prev, prevAt⟩ : ∃ prev, items[index]? = some prev := ⟨_, List.getElem?_eq_getElem (by omega)⟩
        have reached : items.take (index + 1) = items.take index ++ [prev] := by
          rw [take_add_one, prevAt]
          rfl
        simp [StackEntry.itemsBefore, Node.parts, ← map_take, reached, prevAt]
  | «end» =>
    obtain ⟨leaf, items, found, leafItems, final⟩ := Node.rightmostLeaf_spec rootWF
    have last : (Place.at root.toList.length).prevItem root.toList = root.toList.getLast? := by
      rw [Place.prevItem]
      by_cases empty : root.toList = []
      · simp [empty]
      · have some := List.length_pos_iff.mpr empty
        rw [if_neg (by omega), List.getLast?_eq_getElem?]
    simp [last, Node.last, found, leafItems, final]

end Observations

/-- A cursor's run whose calls all meet their condition is the run on the list of the tree's items. -/
theorem cursor_run_exact [LawfulSummary S] [Dimension D S] [LawfulDimension D S] [Dimension U S] [LawfulDimension U S]
    [Dimension A S] [LawfulDimension A S] [LinearOrder D] {build : Build} (tree : Tree build T)
    (low : tree.node.height < stackCapacity) (monotone : PrefixSumsMonotone D tree.node.toList) (calls : List (Call D))
    (allowed : RunAllowed A build calls (Cursor.new tree.node : Cursor T S D U)) :
    let items := tree.node.toList
    let place := (runOnList items calls .before).1
    ∃ cursor : Cursor T S D U, ∃ outputs : List (Output T S A),
      run build calls (Cursor.new tree.node) = some (cursor, outputs) ∧
      List.Forall₂ (Output.Matches build) outputs (runOnList items calls .before).2 ∧
      cursor.seekPosition = dimensionOf D (items.take place.index) ∧
      cursor.start = dimensionOf U (items.take place.index) ∧
      ((build.debugAssertions = true → cursor.didSeek = true) →
        cursor.item build = some (place.item items) ∧ cursor.prevItem build = some (place.prevItem items)) := by
  intro items place
  have fresh : IsAt tree.node (Cursor.new tree.node : Cursor T S D U) .before :=
    @IsAt.fresh T S D U _ _ _ _ (Dimension.default S) (Dimension.default S)
  obtain ⟨cursor, outputs, ran, finalAt, matched⟩ := run_exact (A := A) tree.wf low monotone calls fresh allowed
  obtain ⟨-, spans, -⟩ := finalAt.spanning
  refine ⟨cursor, outputs, ran, matched, ?_, ?_, ?_⟩
  · rw [spans]
    rfl
  · rw [spans]
    rfl
  · intro seeked
    have noPanic : cursor.assertDidSeek build = some ⟨⟩ := by
      cases debug : build.debugAssertions with
      | false => simp [Cursor.assertDidSeek, debug]
      | true => simp [Cursor.assertDidSeek, seeked debug]
    exact ⟨finalAt.item_eq tree.wf noPanic, finalAt.prevItem_eq tree.wf noPanic⟩

namespace Count

instance : Item Unit ℕ where
  summary _ := 1

instance : Dimension ℕ ℕ where
  default := 0
  addSummary := (· + ·)

instance : LawfulDimension ℕ ℕ where
  addSummary_default := rfl
  addSummary_add d s t := (Nat.add_assoc d s t).symm

def release : Build := ⟨false, false⟩

/-- The tree that `extend` makes of thirteen items: two leaves, of seven and of six. -/
def thirteen : Tree release Unit where
  node := (Node.new.extend release (List.replicate 13 ())).getD Node.new
  wf := by
    obtain ⟨result, extended, wf, -⟩ := Node.extend_spec (.new release) (List.replicate 13 ())
    rw [extended]
    exact wf

theorem dimensionOf_eq (items : List Unit) : dimensionOf ℕ items = items.length := by
  induction items using List.reverseRecOn with
  | nil => rfl
  | append_singleton items item ih =>
    rw [dimensionOf_append, ih, length_append]
    rfl

theorem prefixSumsMonotone (items : List Unit) : PrefixSumsMonotone ℕ items := by
  intro i j le
  simp only [dimensionOf_eq, length_take]
  omega

def staleCalls : List (Call ℕ) := [.seek 0 .right, .slice 9 .right, .prev]

/-- `slice` leaves the root's entry with the dimensions of the first leaf, and `prev` starts from them. -/
theorem prev_after_slice :
    (runOnList thirteen.node.toList staleCalls .before).1.index = 8 ∧
      dimensionOf ℕ (thirteen.node.toList.take 8) = 8 ∧
      (run release staleCalls (Cursor.new thirteen.node : Cursor Unit ℕ ℕ ℕ) :
        Option (Cursor Unit ℕ ℕ ℕ × List (Output Unit ℕ ℕ))).map (fun result => result.1.start) = some 1 := by
  decide +kernel

theorem cursor_run_exact_thirteen :
    let calls : List (Call ℕ) := [.seek 0 .right, .next, .prev, .slice 9 .right, .suffix]
    ∃ cursor : Cursor Unit ℕ ℕ ℕ, ∃ outputs : List (Output Unit ℕ ℕ),
      run release calls (Cursor.new thirteen.node) = some (cursor, outputs) ∧
        cursor.start = dimensionOf ℕ (thirteen.node.toList.take 13) := by
  intro calls
  obtain ⟨cursor, outputs, ran, -, -, start, -⟩ :=
    cursor_run_exact (A := ℕ) (D := ℕ) (U := ℕ) thirteen (by decide +kernel) (prefixSumsMonotone _) calls (by decide +kernel)
  exact ⟨cursor, outputs, ran, start⟩

end Count

end Warp.SumTree
