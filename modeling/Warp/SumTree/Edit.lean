import Mathlib.Data.List.TakeWhile
import Warp.SumTree.FilterCursor
import Warp.SumTree.Reach

namespace Warp.SumTree

open List

universe u

class KeyedItem (T : Type u) (K : outParam (Type u)) where
  key : T → K

open KeyedItem (key)

inductive Edit (T : Type u) where
  | insert (item : T)
  | remove (item : T)

namespace Edit

variable {T K : Type u} [KeyedItem T K]

def key : Edit T → K
  | insert item | remove item => KeyedItem.key item

omit [KeyedItem T K] in
def inserted : Edit T → List T
  | insert item => [item]
  | remove _ => []

end Edit

variable {T S K : Type u}

namespace Node

variable [Add S] [Zero S] [Item T S] [Dimension K S] [LinearOrder K] [KeyedItem T K]

/-- What a turn of `edit` does where the cursor is before an item of a lesser key: with the buffered items, those up to the new
    key go to the new tree. -/
def passLesser (build : Build) (newKey : K) (cursor : Cursor T S K PUnit) (newTree : Node T S) (bufferedItems : List T)
    (oldItem : Option T) : Option (Cursor T S K PUnit × Node T S × List T × Option T) :=
  if oldItem.any fun oldItem => key oldItem < newKey then do
    let newTree ← newTree.extend build bufferedItems
    let (cursor, slice) ← cursor.slice build newKey .left
    let newTree ← newTree.pushTree build slice
    let oldItem ← cursor.item build
    return (cursor, newTree, [], oldItem)
  else return (cursor, newTree, bufferedItems, oldItem)

def passEqual (build : Build) (newKey : K) (cursor : Cursor T S K PUnit) (oldItem : Option T) : Option (Cursor T S K PUnit) :=
  if oldItem.any fun oldItem => key oldItem = newKey then cursor.next build else some cursor

def editLoop (build : Build) :
    List (Edit T) → Cursor T S K PUnit → Node T S → List T → Option (Cursor T S K PUnit × Node T S × List T)
  | [], cursor, newTree, bufferedItems => some (cursor, newTree, bufferedItems)
  | edit :: edits, cursor, newTree, bufferedItems => do
    let newKey := edit.key
    let oldItem ← cursor.item build
    let (cursor, newTree, bufferedItems, oldItem) ← passLesser build newKey cursor newTree bufferedItems oldItem
    let cursor ← passEqual build newKey cursor oldItem
    editLoop build edits cursor newTree (bufferedItems ++ edit.inserted)

def edit (build : Build) (self : Node T S) (edits : List (Edit T)) : Option (Node T S) :=
  if edits.isEmpty then some self
  else do
    let edits := edits.mergeSort fun left right => left.key ≤ right.key
    let cursor : Cursor T S K PUnit := Cursor.new self
    let (cursor, _) ← cursor.seek build (Dimension.default S) .left
    let (cursor, newTree, bufferedItems) ← editLoop build edits cursor new []
    let newTree ← newTree.extend build bufferedItems
    let (_, suffix) ← cursor.suffix build
    newTree.pushTree build suffix

end Node

section Lists

variable [LinearOrder K] [KeyedItem T K]

def KeySorted (items : List T) : Prop := items.Pairwise fun left right => key left < key right

def skipKey (k : K) : List T → List T
  | [] => []
  | item :: rest => if key item = k then rest else item :: rest

def edited : List (Edit T) → List T → List T
  | [], items => items
  | edit :: edits, items =>
    items.takeWhile (fun item => key item < edit.key) ++ edit.inserted ++
      edited edits (skipKey edit.key (items.dropWhile fun item => key item < edit.key))

def EditsSorted (edits : List (Edit T)) : Prop := edits.Pairwise fun left right => left.key < right.key

variable {items : List T} {edits : List (Edit T)} {item : T} {k : K}

theorem KeySorted.sublist {part : List T} (sorted : KeySorted items) (sub : part.Sublist items) : KeySorted part :=
  List.Pairwise.sublist sub sorted

theorem skipKey_sublist : (skipKey k items).Sublist items := by
  cases items with
  | nil => exact .refl _
  | cons first rest =>
    rw [skipKey]
    split
    · exact sublist_cons_self first rest
    · exact .refl _

theorem mem_skipKey (sorted : KeySorted items) (least : ∀ item ∈ items, k ≤ key item) :
    item ∈ skipKey k items ↔ item ∈ items ∧ key item ≠ k := by
  cases items with
  | nil => simp [skipKey]
  | cons first rest =>
    have later := (List.pairwise_cons.mp sorted).1
    have greater : ∀ other ∈ rest, key other ≠ k := fun other member =>
      ne_of_gt (lt_of_le_of_lt (least first mem_cons_self) (later other member))
    rw [skipKey]
    by_cases same : key first = k
    · rw [if_pos same, mem_cons]
      refine ⟨fun member => ⟨.inr member, greater item member⟩, fun ⟨member, other⟩ => member.resolve_left ?_⟩
      exact fun isFirst => other (isFirst ▸ same)
    · rw [if_neg same, mem_cons]
      refine ⟨fun member => ⟨member, ?_⟩, And.left⟩
      rcases member with rfl | member
      · exact same
      · exact greater item member

theorem lt_of_mem_takeWhile (member : item ∈ items.takeWhile fun item => key item < k) : key item < k := by
  simpa using mem_takeWhile_imp member

theorem le_of_mem_dropWhile (sorted : KeySorted items) (member : item ∈ items.dropWhile fun item => key item < k) :
    k ≤ key item := by
  induction items with
  | nil => simp at member
  | cons first rest ih =>
    by_cases less : key first < k
    · rw [dropWhile_cons_of_pos (by simpa using less)] at member
      exact ih (List.Pairwise.of_cons sorted) member
    · rw [dropWhile_cons_of_neg (by simpa using less)] at member
      rcases List.mem_cons.mp member with rfl | later
      · exact le_of_not_gt less
      · exact le_trans (le_of_not_gt less) (le_of_lt ((List.pairwise_cons.mp sorted).1 item later))

theorem mem_inserted {edit : Edit T} : item ∈ edit.inserted ↔ edit = .insert item := by
  cases edit with
  | insert other => simp [Edit.inserted, eq_comm]
  | remove other => simp [Edit.inserted]

theorem mem_edited (sorted : KeySorted items) (editsSorted : EditsSorted edits) :
    item ∈ edited edits items ↔ .insert item ∈ edits ∨ item ∈ items ∧ ∀ edit ∈ edits, edit.key ≠ key item := by
  induction edits generalizing items with
  | nil => simp [edited]
  | cons edit edits ih =>
    obtain ⟨greater, editsSorted⟩ := List.pairwise_cons.mp editsSorted
    let lesser := items.takeWhile fun item => key item < edit.key
    let others := items.dropWhile fun item => key item < edit.key
    have split : items = lesser ++ others := (takeWhile_append_dropWhile).symm
    have othersSorted : KeySorted others := sorted.sublist (dropWhile_sublist _)
    have skipped : item ∈ _ ↔ _ := mem_skipKey othersSorted fun other member => le_of_mem_dropWhile sorted member
    have untouched : item ∈ lesser → ∀ other ∈ edit :: edits, other.key ≠ key item := by
      intro member other isEdit
      have less := lt_of_mem_takeWhile member
      rcases List.mem_cons.mp isEdit with rfl | later
      · exact ne_of_gt less
      · exact ne_of_gt (lt_trans less (greater other later))
    have isEdit : item ∈ edit.inserted ↔ .insert item = edit := mem_inserted.trans eq_comm
    show item ∈ lesser ++ edit.inserted ++ edited edits (skipKey edit.key others) ↔ _
    rw [mem_append, mem_append, ih (othersSorted.sublist skipKey_sublist) editsSorted, skipped, isEdit, split,
      mem_append, mem_cons]
    simp only [forall_mem_cons] at untouched ⊢
    tauto

theorem edited_sorted (sorted : KeySorted items) (editsSorted : EditsSorted edits) : KeySorted (edited edits items) := by
  induction edits generalizing items with
  | nil => exact sorted
  | cons edit edits ih =>
    obtain ⟨greater, editsSorted⟩ := List.pairwise_cons.mp editsSorted
    have othersSorted : KeySorted (items.dropWhile fun item => key item < edit.key) := sorted.sublist (dropWhile_sublist _)
    have skippedSorted := othersSorted.sublist (skipKey_sublist (k := edit.key))
    have above : ∀ item ∈ edited edits (skipKey edit.key (items.dropWhile fun item => key item < edit.key)),
        edit.key < key item := by
      intro item member
      rcases (mem_edited skippedSorted editsSorted).mp member with isEdit | ⟨old, -⟩
      · exact greater _ isEdit
      · obtain ⟨old, other⟩ := (mem_skipKey othersSorted fun other member => le_of_mem_dropWhile sorted member).mp old
        exact lt_of_le_of_ne (le_of_mem_dropWhile sorted old) other.symm
    have own : ∀ item ∈ edit.inserted, key item = edit.key := fun item member => by
      rw [mem_inserted.mp member]
      rfl
    refine List.pairwise_append.mpr ⟨List.pairwise_append.mpr ⟨sorted.sublist (takeWhile_sublist _), ?_, ?_⟩,
      ih skippedSorted editsSorted, ?_⟩
    · cases edit <;> simp [Edit.inserted]
    · exact fun item lesser other member => own other member ▸ lt_of_mem_takeWhile lesser
    · intro item member other later
      rcases List.mem_append.mp member with lesser | isOwn
      · exact lt_trans (lt_of_mem_takeWhile lesser) (above other later)
      · exact own item isOwn ▸ above other later

end Lists

/-- A key, as a dimension, takes over the keys that are not less. -/
class LawfulKey (T K : Type u) {S : Type u} [Item T S] [KeyedItem T K] [Dimension K S] [LE K] : Prop where
  addSummary_key (d : K) (item : T) (le : d ≤ key item) : Dimension.addSummary d (Item.summary item) = key item

section Keys

variable [Item T S] [Dimension K S] [LinearOrder K] [KeyedItem T K] [LawfulKey T K] {items left rest : List T} {item : T} {k : K}

structure Ascending (items : List T) : Prop where
  sorted : KeySorted items
  least : ∀ item ∈ items, dimensionOf K ([] : List T) ≤ key item

omit [LawfulKey T K] in
theorem Ascending.part (ascending : Ascending (left ++ rest)) : Ascending left where
  sorted := ascending.sorted.sublist (sublist_append_left left rest)
  least item member := ascending.least item (mem_append_left rest member)

theorem Ascending.dimensionOf_last (ascending : Ascending (left ++ [item])) : dimensionOf K (left ++ [item]) = key item := by
  induction left using List.reverseRecOn generalizing item with
  | nil => exact LawfulKey.addSummary_key _ item (ascending.least item (by simp))
  | append_singleton init last ih =>
    have less : key last < key item :=
      (List.pairwise_append.mp ascending.sorted).2.2 last (by simp) item (mem_singleton_self item)
    rw [← addSummary_item, ih ascending.part]
    exact LawfulKey.addSummary_key _ item (le_of_lt less)

theorem Ascending.dimensionOf_le (ascending : Ascending (left ++ [item])) : dimensionOf K left ≤ key item := by
  cases left using List.reverseRecOn with
  | nil => exact ascending.least item (by simp)
  | append_singleton init last =>
    rw [ascending.part.dimensionOf_last]
    exact le_of_lt ((List.pairwise_append.mp ascending.sorted).2.2 last (by simp) item (mem_singleton_self item))

theorem Ascending.prefixSumsMonotone (ascending : Ascending items) : PrefixSumsMonotone K items := by
  refine fun i j le => monotone_nat_of_le_succ (f := fun i => dimensionOf K (items.take i)) (fun i => ?_) le
  by_cases inside : i < items.length
  · have reached : items.take (i + 1) = items.take i ++ [items[i]] := take_succ_eq_append_getElem inside
    have ascending : Ascending (items.take i ++ [items[i]]) := by
      rw [← reached]
      have whole : Ascending (items.take (i + 1) ++ items.drop (i + 1)) := by rwa [take_append_drop]
      exact whole.part
    show dimensionOf K (items.take i) ≤ dimensionOf K (items.take (i + 1))
    rw [reached, ascending.dimensionOf_last]
    exact ascending.dimensionOf_le
  · show dimensionOf K (items.take i) ≤ dimensionOf K (items.take (i + 1))
    rw [take_of_length_le (by omega), take_of_length_le (by omega)]

theorem Ascending.landing_key (ascending : Ascending (left ++ rest)) :
    landing (left ++ rest) k .left left.length = left.length + (rest.takeWhile fun item => key item < k).length := by
  have split : left ++ rest = left ++ (rest.takeWhile fun item => key item < k) ++ rest.dropWhile fun item => key item < k := by
    rw [append_assoc, takeWhile_append_dropWhile]
  refine landing_eq ascending.prefixSumsMonotone split ?_ ?_
  · by_contra both
    push Not at both
    obtain ⟨some', stops⟩ := both
    obtain ⟨init, last, isLast⟩ := (eq_nil_or_concat' _).resolve_left some'
    have member : last ∈ rest.takeWhile fun item => key item < k := by
      rw [isLast]
      simp
    have less : key last < k := lt_of_mem_takeWhile member
    rw [isLast, ← append_assoc] at stops split
    have ascending : Ascending (left ++ init ++ [last]) := Ascending.part (split ▸ ascending)
    rw [ascending.dimensionOf_last] at stops
    exact not_le_of_gt less stops
  · intro first more isRest
    have notLess : k ≤ key first := by
      have stopped := List.head?_dropWhile_not (fun item => decide (key item < k)) rest
      rw [isRest] at stopped
      simpa using stopped
    rw [isRest, append_cons] at split
    have ascending := Ascending.part (split ▸ ascending)
    rwa [ascending.dimensionOf_last]

end Keys

section Loop

variable [Add S] [Zero S] [Item T S] [Dimension K S] [LinearOrder K] [KeyedItem T K] {build : Build} {root : Node T S}
  {cursor : Cursor T S K PUnit} {left rest : List T} {item : T} {k : K} {index : ℕ}

omit [LinearOrder K] [KeyedItem T K] in
theorem IsAt.item_at (rootWF : root.WF build) (isAt : IsAt root cursor (.at left.length))
    (split : root.toList = left ++ rest) : cursor.item build = some rest.head? := by
  have seeked : cursor.assertDidSeek build = some ⟨⟩ := by simp [Cursor.assertDidSeek, isAt.didSeek]
  rw [isAt.item_eq rootWF seeked]
  rw [Place.item, split, List.getElem?_append_right (Nat.le_refl _), Nat.sub_self, List.head?_eq_getElem?]

variable [LawfulSummary S] [LawfulDimension K S]

omit [KeyedItem T K] in
theorem IsAt.next_at (rootWF : root.WF build) (low : root.height < stackCapacity)
    (isAt : IsAt root cursor (.at left.length)) (split : root.toList = left ++ item :: rest) :
    ∃ next, cursor.next build = some next ∧ IsAt root next (.at (left ++ [item]).length) := by
  obtain ⟨next, output, applied, nextAt, -⟩ :=
    next_exact (A := PUnit) rootWF low isAt ⟨fun _ => isAt.didSeek, isAt.not_onEmptyTree⟩
  obtain ⟨moved, isNext, same⟩ := Option.map_eq_some_iff.mp applied
  cases same
  refine ⟨next, isNext, ?_⟩
  have inside : min (left.length + 1) root.toList.length = (left ++ [item]).length := by
    rw [split]
    simp
  rw [← inside]
  exact nextAt

variable [LawfulKey T K]

theorem IsAt.slice_key (rootWF : root.WF build) (low : root.height < stackCapacity) (ascending : Ascending root.toList)
    (isAt : IsAt root cursor (.at left.length)) (split : root.toList = left ++ rest) (ahead : dimensionOf K left ≤ k) :
    ∃ next tree, cursor.slice build k .left = some (next, tree) ∧
      IsAt root next (.at (left ++ rest.takeWhile fun item => key item < k).length) ∧ tree.WF build ∧
      tree.toList = rest.takeWhile fun item => key item < k := by
  have start : cursor.seekDimension = dimensionOf K left := by
    rw [isAt.spanning.2.1]
    simp [Place.index, split]
  have landed : landing root.toList k .left left.length =
      (left ++ rest.takeWhile fun item => key item < k).length := by
    rw [split, Ascending.landing_key (split ▸ ascending), length_append]
  obtain ⟨next, output, applied, nextAt, matched, -⟩ :=
    slice_exact (A := PUnit) rootWF low ascending.prefixSumsMonotone isAt k .left
      ⟨fun _ => start ▸ ahead, isAt.not_beforeFirst⟩
  obtain ⟨⟨moved, tree⟩, isNext, same⟩ := Option.map_eq_some_iff.mp applied
  cases same
  obtain ⟨wf, isList⟩ := matched
  refine ⟨moved, tree, isNext, ?_, wf, ?_⟩
  · rw [← landed]
    exact nextAt
  · rw [isList]
    simp only [Place.index]
    rw [landed, split, length_append, Nat.add_sub_cancel_left, drop_left]
    exact (List.prefix_iff_eq_take.mp (List.takeWhile_prefix _)).symm

theorem IsAt.suffix_at (rootWF : root.WF build) (low : root.height < stackCapacity) (ascending : Ascending root.toList)
    (isAt : IsAt root cursor (.at left.length)) (split : root.toList = left ++ rest) :
    ∃ next tree, cursor.suffix build = some (next, tree) ∧ tree.WF build ∧ tree.toList = rest := by
  obtain ⟨next, output, applied, -, matched, -⟩ :=
    suffix_exact (A := PUnit) rootWF low ascending.prefixSumsMonotone isAt isAt.not_beforeFirst
  obtain ⟨⟨moved, tree⟩, isNext, same⟩ := Option.map_eq_some_iff.mp applied
  cases same
  obtain ⟨wf, isList⟩ := matched
  refine ⟨moved, tree, isNext, wf, ?_⟩
  rw [isList]
  simp [Place.index, split]

theorem Node.editLoop_spec (rootWF : root.WF build) (low : root.height < stackCapacity) (ascending : Ascending root.toList)
    (edits : List (Edit T)) (isAt : IsAt root cursor (.at left.length)) (split : root.toList = left ++ rest)
    {newTree : Node T S} (wf : newTree.WF build) (bufferedItems : List T) :
    ∃ final result buffered left' rest', editLoop build edits cursor newTree bufferedItems = some (final, result, buffered) ∧
      IsAt root final (.at left'.length) ∧ root.toList = left' ++ rest' ∧ result.WF build ∧
      result.toList ++ buffered ++ rest' = newTree.toList ++ bufferedItems ++ edited edits rest := by
  induction edits generalizing cursor left rest newTree bufferedItems with
  | nil => exact ⟨cursor, newTree, bufferedItems, left, rest, rfl, isAt, split, wf, rfl⟩
  | cons edit edits ih =>
    let lesser := rest.takeWhile fun item => key item < edit.key
    let others := rest.dropWhile fun item => key item < edit.key
    have parts : rest = lesser ++ others := List.takeWhile_append_dropWhile.symm
    have passed : ∃ next tree buffered, passLesser build edit.key cursor newTree bufferedItems rest.head? =
        some (next, tree, buffered, others.head?) ∧ IsAt root next (.at (left ++ lesser).length) ∧ tree.WF build ∧
        tree.toList ++ buffered = newTree.toList ++ bufferedItems ++ lesser := by
      unfold passLesser
      by_cases less : rest.head?.any fun oldItem => key oldItem < edit.key
      · obtain ⟨extended, isExtended, extendedWF, extendedItems⟩ := Node.extend_spec wf bufferedItems
        have ahead : dimensionOf K left ≤ edit.key := by
          obtain ⟨item, isHead, less⟩ := (Option.any_eq_true _ _).mp less
          obtain ⟨more, isRest⟩ := List.head?_eq_some_iff.mp isHead
          have part : Ascending (left ++ [item]) := by
            rw [split, isRest, append_cons] at ascending
            exact ascending.part
          exact le_trans part.dimensionOf_le (le_of_lt (by simpa using less))
        obtain ⟨next, slice, isSlice, nextAt, sliceWF, sliceItems⟩ := isAt.slice_key rootWF low ascending split ahead
        obtain ⟨pushed, isPushed, pushedWF, pushedItems⟩ := Node.pushTree_spec extendedWF sliceWF
        have isItem : next.item build = some others.head? := nextAt.item_at rootWF (by rw [split, parts]; simp [lesser, others])
        refine ⟨next, pushed, [], ?_, nextAt, pushedWF, ?_⟩
        · simp [less, isExtended, isSlice, isPushed, isItem]
        · rw [pushedItems, extendedItems, sliceItems, append_nil]
      · have none' : lesser = [] := by
          cases rest with
          | nil => rfl
          | cons first more => exact takeWhile_cons_of_neg (by simpa using less)
        have all : others = rest := by rw [parts, none', nil_append]
        refine ⟨cursor, newTree, bufferedItems, ?_, ?_, wf, ?_⟩
        · simp [less, all]
        · rwa [none', append_nil]
        · rw [none', append_nil]
    obtain ⟨next, tree, buffered, isPassed, nextAt, treeWF, treeItems⟩ := passed
    have whole : root.toList = left ++ lesser ++ others := by rw [split, parts]; simp
    have skipped : ∃ final left', passEqual build edit.key next others.head? = some final ∧
        IsAt root final (.at left'.length) ∧ root.toList = left' ++ skipKey edit.key others := by
      unfold passEqual
      generalize others = others at whole
      cases others with
      | nil => exact ⟨next, left ++ lesser, rfl, nextAt, whole⟩
      | cons item more =>
        by_cases same : key item = edit.key
        · obtain ⟨final, isFinal, finalAt⟩ := nextAt.next_at rootWF low whole
          refine ⟨final, left ++ lesser ++ [item], ?_, finalAt, ?_⟩
          · simpa [same] using isFinal
          · rw [whole, skipKey, if_pos same, append_cons]
        · refine ⟨next, left ++ lesser, ?_, nextAt, ?_⟩
          · simp [same]
          · rw [whole, skipKey, if_neg same]
    obtain ⟨final, left', isFinal, finalAt, finalSplit⟩ := skipped
    obtain ⟨last, result, final', left'', rest'', ran, lastAt, lastSplit, resultWF, resultItems⟩ :=
      ih finalAt finalSplit treeWF (buffered ++ edit.inserted)
    refine ⟨last, result, final', left'', rest'', ?_, lastAt, lastSplit, resultWF, ?_⟩
    · rw [editLoop, isAt.item_at rootWF split]
      show (passLesser build edit.key cursor newTree bufferedItems rest.head?).bind _ = _
      rw [isPassed]
      show (passEqual build edit.key next others.head?).bind _ = _
      rw [isFinal]
      exact ran
    · rw [resultItems, edited, ← append_assoc, treeItems]
      simp [lesser, others]

variable {edits : List (Edit T)}

theorem Node.edit_spec (rootWF : root.WF build) (low : root.height < stackCapacity) (ascending : Ascending root.toList)
    (some' : edits ≠ []) :
    ∃ result, root.edit build edits = some result ∧ result.WF build ∧
      result.toList = edited (edits.mergeSort fun left right => left.key ≤ right.key) root.toList := by
  have fresh : IsAt root (Cursor.new root : Cursor T S K PUnit) .before :=
    @IsAt.fresh T S K PUnit _ _ _ _ (Dimension.default S) (Dimension.default S)
  obtain ⟨start, output, applied, startAt, -⟩ := seek_exact (A := PUnit) rootWF low ascending.prefixSumsMonotone fresh
    (Dimension.default S) .left fun _ => le_rfl
  obtain ⟨⟨moved, found⟩, isStart, same⟩ := Option.map_eq_some_iff.mp applied
  cases same
  have landed : landing root.toList (Dimension.default S : K) .left 0 = ([] : List T).length := by
    have first : (root.toList.takeWhile fun item => key item < (Dimension.default S : K)) = [] := by
      rw [takeWhile_eq_nil_iff]
      exact fun filled => by simpa using ascending.least _ (getElem_mem _)
    have landed : landing ([] ++ root.toList) (Dimension.default S : K) .left ([] : List T).length = _ :=
      Ascending.landing_key ascending
    rw [first] at landed
    exact landed
  rw [show (Call.onList root.toList Place.before (.seek (Dimension.default S : K) .left)).1 = .at ([] : List T).length from
    congrArg Place.at landed] at startAt
  obtain ⟨final, newTree, buffered, left, rest, ran, finalAt, split, newWF, newItems⟩ :=
    editLoop_spec rootWF low ascending (edits.mergeSort fun left right => left.key ≤ right.key) startAt rfl (.new build) []
  obtain ⟨extended, isExtended, extendedWF, extendedItems⟩ := extend_spec newWF buffered
  obtain ⟨after, suffix, isSuffix, suffixWF, suffixItems⟩ := finalAt.suffix_at rootWF low ascending split
  obtain ⟨result, isResult, resultWF, resultItems⟩ := pushTree_spec extendedWF suffixWF
  refine ⟨result, ?_, resultWF, ?_⟩
  · rw [edit, if_neg (by simpa using some')]
    show (Cursor.seek build _ _ _).bind _ = _
    rw [isStart]
    show (editLoop build _ _ _ _).bind _ = _
    rw [ran]
    show (Node.extend build newTree buffered).bind _ = _
    rw [isExtended]
    show (Cursor.suffix build final).bind _ = _
    rw [isSuffix]
    exact isResult
  · rw [resultItems, extendedItems, suffixItems, newItems]
    simp [new]

omit [Add S] [Zero S] [Item T S] [Dimension K S] [LawfulSummary S] [LawfulDimension K S] [LawfulKey T K] in
theorem editsSorted_mergeSort (distinct : edits.Pairwise fun left right => left.key ≠ right.key) :
    EditsSorted (edits.mergeSort fun left right => left.key ≤ right.key) := by
  have ascending := @List.pairwise_mergeSort _ (fun (left right : Edit T) => left.key ≤ right.key)
    (fun _ _ _ first second => by simpa using le_trans (by simpa using first) (by simpa using second))
    (fun left right => by simpa using le_total left.key right.key) edits
  have different := ((mergeSort_perm edits fun left right => left.key ≤ right.key).pairwise_iff
    fun different => Ne.symm different).mpr distinct
  exact ascending.imp₂ (fun _ _ le ne => lt_of_le_of_ne (by simpa using le) ne) different

/-- The items after `edit`, in the order of their keys: those inserted, and those before of whose key there is no edit. -/
theorem edit_exact (tree : Tree build T) (sorted : KeySorted tree.node.toList) {edits : List (Edit T)}
    (distinct : edits.Pairwise fun left right => left.key ≠ right.key)
    (fits : edits = [] ∨ tree.node.height < stackCapacity ∧ ∀ item ∈ tree.node.toList, (Dimension.default S : K) ≤ key item) :
    ∃ result, tree.node.edit build edits = some result ∧ result.WF build ∧ KeySorted result.toList ∧
      ∀ item, item ∈ result.toList ↔
        .insert item ∈ edits ∨ item ∈ tree.node.toList ∧ ∀ edit ∈ edits, edit.key ≠ key item := by
  by_cases none' : edits = []
  · subst none'
    exact ⟨tree.node, rfl, tree.wf, sorted, by simp⟩
  · obtain ⟨low, least⟩ := fits.resolve_left none'
    obtain ⟨result, isResult, wf, items⟩ := Node.edit_spec tree.wf low ⟨sorted, least⟩ none'
    have editsSorted := editsSorted_mergeSort distinct
    refine ⟨result, isResult, wf, items ▸ edited_sorted sorted editsSorted, fun item => ?_⟩
    rw [items, mem_edited sorted editsSorted]
    simp only [mem_mergeSort]

end Loop

section Full

variable {U A : Type u} [Add S] [Zero S] [Item T S] [Dimension K S] [Dimension U S] [Dimension A S] [LinearOrder K]
  {build : Build} {target : K}

omit [Add S] [Zero S] [Item T S] [Dimension K S] [Dimension U S] [Dimension A S] in
theorem Cursor.targetBeyondNode_least (least : ∀ d : K, target ≤ d) (maxEnd : K) (count index : ℕ) (childEnd : K) :
    targetBeyondNode target .left .no maxEnd count index childEnd = false := by
  rw [targetBeyondNode, targetBeyond_no]
  simpa [Stops] using least _

theorem Cursor.descend_full (least : ∀ d : K, target ≤ d) {node : Node T S} (wf : node.WF build) (filled : node.toList ≠ [])
    {self : Cursor T S K U} (full : stackCapacity ≤ self.stack.length + node.height) (aggregate : SeekAggregate T S A) :
    Cursor.descend build target .left .no self aggregate node = none := by
  induction wf generalizing self with
  | @leaf items bound =>
    rw [Node.toList_leaf] at filled
    obtain ⟨first, rest, rfl⟩ := exists_cons_of_ne_nil filled
    have noRoom : ∀ tree index, self.push tree index = none := fun _ _ => if_neg (by simpa using full)
    simp [descend, passWhile, descentPasses, targetBeyondNode_least least, noRoom]
  | @internal height childTrees some bound wf level nonempty ih =>
    obtain ⟨first, rest, rfl⟩ := exists_cons_of_ne_nil some
    have member : first ∈ first :: rest := mem_cons_self
    by_cases room : self.stack.length < stackCapacity
    · have below : ∀ self' : Cursor T S K U, self'.stack.length = self.stack.length + 1 →
          Cursor.descend build target .left .no self' aggregate first = none := by
        intro self' deeper
        refine ih first member (nonempty first member) ?_
        rw [deeper, level first member]
        rw [Node.height_internal] at full
        omega
      simp [descend, passWhile, descentPasses, targetBeyondNode_least least, push_of_lt _ room, descendChild, below]
    · have noRoom : ∀ tree index, self.push tree index = none := fun _ _ => if_neg room
      simp [descend, passWhile, descentPasses, targetBeyondNode_least least, noRoom]

theorem Node.edit_full [KeyedItem T K] (least : ∀ d : K, (Dimension.default S : K) ≤ d) {root : Node T S} (rootWF : root.WF build)
    (filled : root.toList ≠ []) (full : stackCapacity ≤ root.height) {edits : List (Edit T)} (some' : edits ≠ []) :
    root.edit build edits = none := by
  have noRoom : Cursor.seek build (Cursor.new root : Cursor T S K PUnit) (Dimension.default S) .left = none := by
    have fits : ¬ (Dimension.default S : K) < (Cursor.new root : Cursor T S K PUnit).reset.seekDimension := lt_irrefl _
    let start : Cursor T S K PUnit := { (Cursor.new root : Cursor T S K PUnit).reset with didSeek := true }
    have noWay : Cursor.descend build (Dimension.default S : K) .left .no start (.none : SeekAggregate T S PUnit) root = none :=
      Cursor.descend_full least rootWF filled (by simpa [start, Cursor.reset] using full) .none
    have nowhere : Cursor.locate build (Dimension.default S : K) .left (.none : SeekAggregate T S PUnit) .no
        (Cursor.new root).reset = none := noWay
    rw [Cursor.seek, Cursor.seekInternal, if_neg (by simp [fits]), nowhere]
    rfl
  rw [edit, if_neg (by simpa using some')]
  show (Cursor.seek build _ _ _).bind _ = _
  rw [noRoom]
  rfl

end Full

structure Keyed (α : Type u) where
  key : α
  deriving DecidableEq

structure LastKey (α : Type u) where
  last : Option α

namespace Keyed

variable {α : Type u}

instance : Add (LastKey α) := ⟨fun left right => ⟨right.last.or left.last⟩⟩

instance : Zero (LastKey α) := ⟨⟨none⟩⟩

instance : LawfulSummary (LastKey α) where
  zero_add s := by
    cases s with | mk last => cases last <;> rfl
  add_assoc r s t := by
    cases t with | mk last => cases last <;> rfl

instance : Item (Keyed α) (LastKey α) where
  summary item := ⟨some item.key⟩

instance : KeyedItem (Keyed α) α where
  key item := item.key

instance [Zero α] : Dimension α (LastKey α) where
  default := 0
  addSummary before summary := summary.last.getD before

instance [Zero α] : LawfulDimension α (LastKey α) where
  addSummary_default := rfl
  addSummary_add d s t := by
    cases t with | mk last => cases last <;> rfl

instance [Zero α] [LE α] : LawfulKey (Keyed α) α where
  addSummary_key _ _ _ := rfl

def tree (build : Build) (keys : List α) : Tree build (Keyed α) where
  node := (Node.new.extend build (keys.map Keyed.mk)).getD Node.new
  wf := by
    obtain ⟨result, extended, wf, -⟩ := Node.extend_spec (.new build) (keys.map Keyed.mk)
    rw [extended]
    exact wf

theorem tree_toList (build : Build) (keys : List α) : (tree build keys).node.toList = keys.map Keyed.mk := by
  obtain ⟨result, extended, -, isList⟩ := Node.extend_spec (.new build) (keys.map Keyed.mk)
  have isNode : (tree build keys).node = result := congrArg (Option.getD · Node.new) extended
  rw [isNode, isList]
  simp [Node.new]

/-- A key below the default one is passed over, and a tree with room for too many items cannot be edited at all. -/
theorem not_edit_exact :
    (KeySorted (tree Count.release [(-5 : ℤ)]).node.toList ∧
      ¬ ∃ result, (tree Count.release [(-5 : ℤ)]).node.edit Count.release [.insert ⟨3⟩] = some result ∧
        ∀ item, item ∈ result.toList ↔ Edit.insert item ∈ [Edit.insert (Keyed.mk (3 : ℤ))] ∨
          item ∈ (tree Count.release [(-5 : ℤ)]).node.toList ∧ ∀ edit ∈ [Edit.insert (Keyed.mk (3 : ℤ))], edit.key ≠ item.key) ∧
    (KeySorted (tree Count.testing (List.range (Count.testing.capacity ^ stackCapacity + 1))).node.toList ∧
      ¬ ∃ result, (tree Count.testing (List.range (Count.testing.capacity ^ stackCapacity + 1))).node.edit Count.testing
        [.remove ⟨0⟩] = some result) := by
  refine ⟨⟨?_, ?_⟩, ?_, ?_⟩
  · rw [tree_toList]
    exact pairwise_singleton _ _
  · rintro ⟨result, isResult, members⟩
    have lost : ((tree Count.release [(-5 : ℤ)]).node.edit Count.release [.insert ⟨3⟩]).map Node.toList = some [⟨3⟩] := by
      decide +kernel
    rw [isResult] at lost
    have only : result.toList = [⟨3⟩] := by simpa using lost
    have kept := (members ⟨-5⟩).mpr (.inr ⟨by rw [tree_toList]; exact mem_singleton_self _, by decide⟩)
    rw [only] at kept
    exact absurd kept (by decide)
  · rw [tree_toList]
    exact List.pairwise_map.mpr pairwise_lt_range
  · rintro ⟨result, isResult⟩
    have full : stackCapacity ≤ (tree Count.testing (List.range (Count.testing.capacity ^ stackCapacity + 1))).node.height := by
      refine (tree _ _).wf.le_height ?_
      rw [tree_toList, length_map, length_range]
      exact Nat.lt_succ_self _
    have filled : (tree Count.testing (List.range (Count.testing.capacity ^ stackCapacity + 1))).node.toList ≠ [] := by
      rw [tree_toList]
      exact ne_nil_of_length_pos (by rw [length_map, length_range]; exact Nat.succ_pos _)
    rw [Node.edit_full (fun _ => Nat.zero_le _) (tree _ _).wf filled full (cons_ne_nil _ _)] at isResult
    cases isResult

theorem edit_exact_three :
    ∃ result, (tree Count.release [1, 4, 6]).node.edit Count.release [.insert ⟨5⟩, .remove ⟨1⟩, .insert ⟨(4 : ℕ)⟩] = some result ∧
      result.WF Count.release ∧ KeySorted result.toList ∧
      ∀ item, item ∈ result.toList ↔ Edit.insert item ∈ [Edit.insert ⟨5⟩, .remove ⟨1⟩, .insert (Keyed.mk 4)] ∨
        item ∈ (tree Count.release [1, 4, 6]).node.toList ∧
          ∀ edit ∈ [Edit.insert ⟨5⟩, .remove ⟨1⟩, .insert (Keyed.mk 4)], edit.key ≠ key item :=
  edit_exact (tree Count.release [1, 4, 6]) (by rw [tree_toList]; unfold KeySorted; decide) (by decide)
    (.inr ⟨by decide +kernel, fun _ _ => Nat.zero_le _⟩)

end Keyed

end Warp.SumTree
