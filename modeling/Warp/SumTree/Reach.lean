import Warp.SumTree.CursorExact

namespace Warp.SumTree

open List

universe u

variable {T S D U A : Type u}

namespace Cursor

variable [Dimension D S] [Dimension U S]

omit [Dimension U S] in
/-- The seek position after the item that the cursor is on. -/
def endSeekPosition (build : Build) (self : Cursor T S D U) : Option D :=
  (self.itemSummary build).map fun summary =>
    match summary with
    | some summary => Dimension.addSummary self.seekPosition summary
    | none => self.seekPosition

omit [Dimension D S] in
def endPosition (build : Build) (self : Cursor T S D U) : Option U :=
  (self.itemSummary build).map fun summary =>
    match summary with
    | some summary => Dimension.addSummary self.start summary
    | none => self.start

end Cursor

section Passes

variable [Item T S] [Dimension D S] [LinearOrder D]

/-- Seeking a target passes some items, and stops before the rest. -/
structure Passes (target : D) (bias : SeekBias) (before passed rest : List T) : Prop where
  beyond : passed = [] ∨ ¬ Stops target bias (dimensionOf D (before ++ passed))
  stops : ∀ item more, rest = item :: more → Stops target bias (dimensionOf D (before ++ passed ++ [item]))

theorem exists_passes (target : D) (bias : SeekBias) (before after : List T) :
    ∃ passed rest, after = passed ++ rest ∧ Passes target bias before passed rest := by
  induction after generalizing before with
  | nil => exact ⟨[], [], rfl, .inl rfl, nofun⟩
  | cons item after ih =>
    by_cases stops : Stops target bias (dimensionOf D (before ++ [item]))
    · refine ⟨[], item :: after, rfl, .inl rfl, fun first more same => ?_⟩
      cases same
      rw [append_nil]
      exact stops
    · obtain ⟨passed, rest, parts, passes⟩ := ih (before ++ [item])
      have regroup : before ++ item :: passed = before ++ [item] ++ passed := by simp
      refine ⟨item :: passed, rest, by rw [parts, cons_append], ?_, ?_⟩
      · rw [regroup]
        rcases passes.beyond with none | beyond
        · rw [none, append_nil]
          exact .inr stops
        · exact .inr beyond
      · rw [regroup]
        exact passes.stops

end Passes

section Reach

variable [Add S] [Zero S] [Item T S] [Dimension D S] [Dimension U S]

/-- The cursor is between two parts of the items: on the first one of the second part, or at the end. -/
structure On (root : Node T S) (cursor : Cursor T S D U) (before after : List T) : Prop where
  isAt : IsAt root cursor (.at before.length)
  parts : root.toList = before ++ after

/-- The cursor has not moved yet, or is between two parts of the items. -/
inductive Reaches (root : Node T S) : Cursor T S D U → List T → List T → Prop
  | fresh : Reaches root (Cursor.new root) [] root.toList
  | on {cursor : Cursor T S D U} {before after : List T} (on : On root cursor before after) :
    Reaches root cursor before after

variable {build : Build} {root : Node T S} {cursor : Cursor T S D U} {before after : List T}

omit [Add S] [Zero S] in
theorem Reaches.parts (reaches : Reaches root cursor before after) : root.toList = before ++ after := by
  cases reaches with
  | fresh => rfl
  | on on => exact on.parts

section Placed

variable {index : ℕ} (isAt : IsAt root cursor (.at index))

include isAt

omit [Add S] [Zero S] in
theorem IsAt.didSeek : cursor.didSeek = true := by
  cases isAt <;> rfl

omit [Add S] [Zero S] in
theorem IsAt.not_beforeFirst : ¬ cursor.BeforeFirst := by
  rintro ⟨-, notEnd, empty, -⟩
  cases isAt with
  | item on => exact on.ne_nil empty
  | «end» => exact Bool.noConfusion notEnd

omit [Add S] [Zero S] in
theorem IsAt.not_onEmptyTree : ¬ cursor.OnEmptyTree := by
  rintro ⟨placed, empty⟩
  cases isAt with
  | item on =>
    rw [Cursor.spanning_tree, on.toList] at empty
    simp at empty
  | «end» => exact placed rfl

end Placed

omit [Add S] [Zero S] in
theorem Reaches.exists_place (reaches : Reaches root cursor before after) :
    ∃ place, IsAt root cursor place ∧ place.index = before.length ∧ ¬ cursor.BeforeFirst := by
  cases reaches with
  | fresh => exact ⟨.before, @IsAt.fresh T S D U _ _ _ _ (Dimension.default S) (Dimension.default S), rfl, nofun⟩
  | on on => exact ⟨.at before.length, on.isAt, rfl, on.isAt.not_beforeFirst⟩

namespace On

variable (on : On root cursor before after)

include on

omit [Add S] [Zero S] in
theorem spanning : cursor.tree = root ∧ cursor = cursor.spanning before := by
  obtain ⟨tree, spans, -⟩ := on.isAt.spanning
  have taken : root.toList.take before.length = before := by
    rw [on.parts]
    exact take_left
  rw [Place.index, taken] at spans
  exact ⟨tree, spans⟩

omit [Add S] [Zero S] in
theorem seekPosition_eq : cursor.seekPosition = dimensionOf D before := by
  rw [on.spanning.2]
  rfl

omit [Add S] [Zero S] in
theorem start_eq : cursor.start = dimensionOf U before := by
  rw [on.spanning.2]
  rfl

omit [Add S] [Zero S] in
theorem assertDidSeek (build : Build) : cursor.assertDidSeek build = some ⟨⟩ := by
  simp [Cursor.assertDidSeek, on.isAt.didSeek]

section

variable (rootWF : root.WF build)
include rootWF

theorem item_eq : cursor.item build = some after.head? := by
  rw [on.isAt.item_eq rootWF (on.assertDidSeek build), Place.item, on.parts]
  rw [List.getElem?_append_right (Nat.le_refl _), Nat.sub_self, List.head?_eq_getElem?]

theorem itemSummary_eq :
    cursor.itemSummary build = some (after.head?.map Item.summary) := by
  obtain ⟨isAt, parts⟩ := on
  generalize placed : Place.at before.length = place at isAt
  cases isAt with
  | fresh => cases placed
  | off => cases placed
  | emptied => cases placed
  | @item seek sum stack item onItem =>
    injection placed with length
    have split := onItem.toList
    rw [parts] at split
    obtain ⟨rfl, rfl⟩ := append_inj split length
    rw [Cursor.itemSummary_of_item rootWF rfl onItem]
    rfl
  | «end» =>
    injection placed with length
    have none : after = [] := by
      rw [parts, length_append] at length
      exact List.length_eq_zero_iff.mp (by omega)
    subst none
    simp [Cursor.itemSummary, Cursor.assertDidSeek, Cursor.spanning]

theorem endSeekPosition_eq {item : T} {rest : List T} (isNext : after = item :: rest) :
    cursor.endSeekPosition build = some (dimensionOf D (before ++ [item])) := by
  rw [Cursor.endSeekPosition, on.itemSummary_eq rootWF, isNext, on.seekPosition_eq, ← addSummary_item]
  rfl

theorem endSeekPosition_nil (atEnd : after = []) :
    cursor.endSeekPosition build = some (dimensionOf D before) := by
  rw [Cursor.endSeekPosition, on.itemSummary_eq rootWF, atEnd, on.seekPosition_eq]
  rfl

theorem endPosition_eq {item : T} {rest : List T} (isNext : after = item :: rest) :
    cursor.endPosition build = some (dimensionOf U (before ++ [item])) := by
  rw [Cursor.endPosition, on.itemSummary_eq rootWF, isNext, on.start_eq, ← addSummary_item]
  rfl

end

end On

section Calls

variable [LawfulSummary S] [LawfulDimension D S] [LawfulDimension U S] [LinearOrder D]
  (rootWF : root.WF build) (low : root.height < stackCapacity)

include rootWF low

theorem On.next_spec (on : On root cursor before after) :
    ∃ next, cursor.next build = some next ∧ On root next (before ++ after.take 1) (after.drop 1) := by
  have allowed : (Call.next : Call D).Allowed build cursor :=
    ⟨fun _ => on.isAt.didSeek, on.isAt.not_onEmptyTree⟩
  have moves : (Call.next : Call D).Exact PUnit build root cursor (.at before.length) := next_exact rootWF low on.isAt allowed
  obtain ⟨next, output, applied, nextAt, -, -⟩ := moves
  obtain ⟨moved, same, isMoved⟩ := Option.map_eq_some_iff.mp applied
  cases isMoved
  refine ⟨next, same, ?_, ?_⟩
  · have index : min (before.length + 1) root.toList.length = (before ++ after.take 1).length := by
      rw [on.parts, length_append, length_append, length_take]
      omega
    rw [← index]
    exact nextAt
  · rw [append_assoc, take_append_drop]
    exact on.parts

variable (monotone : PrefixSumsMonotone D root.toList)

include monotone

omit [Add S] [Zero S] [Dimension U S] [LawfulSummary S] [LawfulDimension D S] [LawfulDimension U S] rootWF low in
theorem landing_eq_of_passes {target : D} {bias : SeekBias} {passed rest : List T} (parts : root.toList = before ++ (passed ++ rest))
    (passes : Passes target bias before passed rest) :
    landing root.toList target bias before.length = (before ++ passed).length := by
  rw [length_append]
  exact landing_eq monotone (by rw [parts, append_assoc]) passes.beyond passes.stops

section

variable (reaches : Reaches root cursor before after)
include reaches

theorem seek_spec (target : D) (bias : SeekBias)
    (assertion : build.debugAssertions = true → Dimension.default S ≤ target) :
    ∃ next found passed rest, cursor.seek build target bias = some (next, found) ∧
      On root next passed rest ∧ Passes target bias [] passed rest := by
  obtain ⟨passed, rest, parts, passes⟩ := exists_passes target bias [] root.toList
  have landed := landing_eq_of_passes monotone parts passes
  obtain ⟨place, isAt, -, -⟩ := reaches.exists_place
  have moves : (Call.seek target bias).Exact PUnit build root cursor place :=
    seek_exact rootWF low monotone isAt target bias assertion
  obtain ⟨next, output, applied, nextAt, -, -⟩ := moves
  obtain ⟨⟨moved, found⟩, same, isMoved⟩ := Option.map_eq_some_iff.mp applied
  cases isMoved
  refine ⟨moved, found, passed, rest, same, ⟨?_, parts⟩, passes⟩
  rw [nil_append] at landed
  rw [← landed]
  exact nextAt

theorem slice_spec (stop : D) (bias : SeekBias)
    (assertion : build.debugAssertions = true → dimensionOf D before ≤ stop) :
    ∃ next tree passed rest, cursor.slice build stop bias = some (next, tree) ∧ after = passed ++ rest ∧
      On root next (before ++ passed) rest ∧ Passes stop bias before passed rest ∧ tree.WF build ∧ tree.toList = passed := by
  obtain ⟨passed, rest, parts, passes⟩ := exists_passes stop bias before after
  have whole : root.toList = before ++ (passed ++ rest) := by rw [reaches.parts, parts]
  have landed := landing_eq_of_passes monotone whole passes
  obtain ⟨place, isAt, index, notBefore⟩ := reaches.exists_place
  have position : cursor.seekDimension = dimensionOf D before := by
    obtain ⟨-, spans, -⟩ := isAt.spanning
    rw [spans, index, whole, take_left]
    rfl
  have moves : (Call.slice stop bias).Exact PUnit build root cursor place :=
    slice_exact rootWF low monotone isAt stop bias ⟨by rw [position]; exact assertion, notBefore⟩
  obtain ⟨next, output, applied, nextAt, matched, -⟩ := moves
  obtain ⟨⟨moved, tree⟩, same, isMoved⟩ := Option.map_eq_some_iff.mp applied
  cases isMoved
  obtain ⟨treeWF, items⟩ := matched
  dsimp only [Call.onList] at nextAt items
  rw [index, landed] at nextAt items
  refine ⟨moved, tree, passed, rest, same, parts, ⟨nextAt, by rw [whole, append_assoc]⟩, passes, treeWF, ?_⟩
  rw [items, whole, drop_left, length_append, Nat.add_sub_cancel_left, take_left]

theorem suffix_spec :
    ∃ next tree, cursor.suffix build = some (next, tree) ∧ tree.WF build ∧ tree.toList = after := by
  obtain ⟨place, isAt, index, notBefore⟩ := reaches.exists_place
  have moves : (Call.suffix : Call D).Exact PUnit build root cursor place :=
    suffix_exact rootWF low monotone isAt notBefore
  obtain ⟨next, output, applied, -, matched, -⟩ := moves
  obtain ⟨⟨moved, tree⟩, same, isMoved⟩ := Option.map_eq_some_iff.mp applied
  cases isMoved
  obtain ⟨treeWF, items⟩ := matched
  refine ⟨moved, tree, same, treeWF, ?_⟩
  rw [items, index, reaches.parts, drop_left]

end

variable [Dimension A S] [LawfulDimension A S]

theorem summary_spec (reaches : Reaches root cursor before after) (stop : D) (bias : SeekBias)
    (assertion : build.debugAssertions = true → dimensionOf D before ≤ stop) :
    ∃ next passed rest, cursor.summary build stop bias = some (next, dimensionOf A passed) ∧ after = passed ++ rest ∧
      On root next (before ++ passed) rest ∧ Passes stop bias before passed rest := by
  obtain ⟨passed, rest, parts, passes⟩ := exists_passes stop bias before after
  have whole : root.toList = before ++ (passed ++ rest) := by rw [reaches.parts, parts]
  have landed := landing_eq_of_passes monotone whole passes
  obtain ⟨place, isAt, index, notBefore⟩ := reaches.exists_place
  have position : cursor.seekDimension = dimensionOf D before := by
    obtain ⟨-, spans, -⟩ := isAt.spanning
    rw [spans, index, whole, take_left]
    rfl
  have moves : (Call.summary stop bias).Exact A build root cursor place :=
    summary_exact rootWF low monotone isAt stop bias ⟨by rw [position]; exact assertion, notBefore⟩
  obtain ⟨next, output, applied, nextAt, matched, -⟩ := moves
  obtain ⟨⟨moved, value⟩, same, isMoved⟩ := Option.map_eq_some_iff.mp applied
  cases isMoved
  dsimp only [Call.onList] at nextAt matched
  rw [index, landed] at nextAt matched
  refine ⟨moved, passed, rest, ?_, parts, ⟨nextAt, by rw [whole, append_assoc]⟩, passes⟩
  have value_eq : value = dimensionOf A passed := by
    refine matched.trans ?_
    rw [whole, drop_left, length_append, Nat.add_sub_cancel_left, take_left]
  rw [same, value_eq]

end Calls

end Reach

end Warp.SumTree
