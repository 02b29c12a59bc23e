import Warp.Editor.Content.BufferCursor
import Warp.Lib.Cuts

namespace Warp.Editor.Content

open SumTree Str Cuts List Option

theorem total_width (symbols : List Symbol) : total Symbol.width symbols = widthOf symbols := by
  induction symbols with
  | nil => rfl
  | cons symbol symbols ih => rw [total_cons, ih, widthOf_cons, Symbol.width]

theorem width_pos (chars : Str) : ∀ symbol ∈ chars.map Symbol.char, 0 < symbol.width := by
  intro symbol member
  obtain ⟨c, -, rfl⟩ := List.mem_map.mp member
  exact Nat.one_pos

structure Holds (build : Build) (tree : Node BufferText BufferSummary) (symbols : List Symbol) : Prop where
  wf : tree.WF build
  wellFormed : ∀ item ∈ tree.toList, item.WellFormed
  symbols : symbolsOf tree.toList = symbols

namespace Holds

variable {build : Build} {tree other : Node BufferText BufferSummary} {symbols added : List Symbol}

theorem new : Holds build Node.new [] where
  wf := .new build
  wellFormed := nofun
  symbols := rfl

theorem pushTree (holds : Holds build tree symbols) (otherHolds : Holds build other added) :
    ∃ result, tree.pushTree build other = some result ∧ Holds build result (symbols ++ added) := by
  obtain ⟨result, pushed, wf, items⟩ := Node.pushTree_spec holds.wf otherHolds.wf
  refine ⟨result, pushed, wf, ?_, ?_⟩
  · rw [items, forall_mem_append]
    exact ⟨holds.wellFormed, otherHolds.wellFormed⟩
  · rw [items, symbolsOf_append, holds.symbols, otherHolds.symbols]

theorem push (holds : Holds build tree symbols) {item : BufferText} (formed : item.WellFormed) :
    ∃ result, tree.push build item = some result ∧ Holds build result (symbols ++ item.symbols) := by
  obtain ⟨result, pushed, wf, items⟩ := Node.push_spec holds.wf item
  refine ⟨result, pushed, wf, ?_, ?_⟩
  · rw [items, forall_mem_append, forall_mem_singleton]
    exact ⟨holds.wellFormed, formed⟩
  · rw [items, symbolsOf_append, holds.symbols]
    simp [symbolsOf]

theorem appendFragment (holds : Holds build tree symbols) {text : Str} (plain : '\n' ∉ text) :
    ∃ result, appendFragment build tree text = some result ∧ Holds build result (symbols ++ text.map .char) := by
  rw [Content.appendFragment]
  by_cases empty : text = []
  · rw [if_pos empty, empty, map_nil, append_nil]
    exact ⟨tree, rfl, holds⟩
  · rw [if_neg empty]
    obtain ⟨result, appended, wf, wellFormed, isAppended⟩ := appendStr_plain holds.wf holds.wellFormed plain
    exact ⟨result, appended, wf, wellFormed, by rw [isAppended, holds.symbols]⟩

end Holds

theorem symbols_split (fragment : Str) (index : ℕ) :
    fragment.map Symbol.char = (fragment.take index).map .char ++ (fragment.drop index).map .char := by
  rw [← map_append, take_append_drop]

theorem BufferText.WellFormed.head_width {item : BufferText} {items : List BufferText} {symbol : Symbol} {more : List Symbol}
    (formed : item.WellFormed) (some : 0 < item.textSummary.chars) (isHead : symbolsOf (item :: items) = symbol :: more) :
    0 < symbol.width := by
  rw [symbolsOf_cons] at isHead
  cases item with
  | text fragment charCount =>
    obtain ⟨-, rfl, -⟩ := formed
    obtain ⟨c, fragment, rfl⟩ := exists_cons_of_ne_nil (List.length_pos_iff.mp some)
    cases isHead
    exact Nat.one_pos
  | _ =>
    cases isHead
    exact some

theorem BufferText.WellFormed.takesAll {item : BufferText} {stop position : ℕ} (formed : item.WellFormed) (ahead : position < stop)
    (inside : position + item.textSummary.chars ≤ stop) : TakesAll Symbol.width .before stop position item.symbols := by
  cases item with
  | text fragment charCount =>
    obtain ⟨-, rfl, -⟩ := formed
    refine takesAll_of_pos ?_ (by rw [symbols_text, total_width, widthOf_chars]; exact inside)
    exact width_pos _
  | _ => exact ⟨ahead, trivial⟩

namespace BufferCursor

variable {U : Type} [Dimension U BufferSummary] {build : Build} {root : Node BufferText BufferSummary}

variable {cursor : Cursor BufferText BufferSummary CharOffset U} {newContent : Node BufferText BufferSummary}
  {parts : List (List Symbol)} {trees : List (Node BufferText BufferSummary)}

theorem seekPosition_eq {before after : List BufferText} {offset : ℕ} (reaches : Reaches root cursor before after) :
    (⟨cursor, offset⟩ : BufferCursor U).seekPosition = charsOf before := by
  cases reaches with
  | fresh => rfl
  | on on => exact on.seekPosition_eq.trans (dimensionOf_charOffset before)

/-- Where a cursor is in the symbols of a tree: between items, in the middle of a fragment, or beyond the content. -/
inductive At (root : Node BufferText BufferSummary) : BufferCursor U → List Symbol → List Symbol → Prop
  | between {cursor before after} (reaches : Reaches root cursor before after) :
    At root ⟨cursor, charsOf before⟩ (symbolsOf before) (symbolsOf after)
  | inside {cursor before fragment charCount after index} (on : On root cursor before (.text fragment charCount :: after))
    (pos : 0 < index) (lt : index < fragment.length) :
    At root ⟨cursor, charsOf before + index⟩ (symbolsOf before ++ (fragment.take index).map .char)
      ((fragment.drop index).map .char ++ symbolsOf after)
  | beyond {cursor offset} (on : On root cursor root.toList []) (le : charsOf root.toList ≤ offset) :
    At root ⟨cursor, offset⟩ (symbolsOf root.toList) []

variable [LawfulDimension U BufferSummary] {side : Side} {stop : ℕ}

/-- A slice up to an offset takes symbols into a tree, and the cursor goes on after them. -/
structure Sliced (build : Build) (root : Node BufferText BufferSummary) (side : Side) (stop : ℕ) (done taken left : List Symbol)
    (next : BufferCursor U) (tree : Node BufferText BufferSummary) : Prop where
  holds : Holds build tree taken
  isCut : IsCut Symbol.width side stop (widthOf done) taken left
  goesOn : At root next (done ++ taken) left
  offset_eq : next.offset = stop

def seekBias : Side → SeekBias
  | .before => .left
  | .after => .right

def endMarkers (build : Build) : Side → Cursor BufferText BufferSummary CharOffset U → Node BufferText BufferSummary → ℕ →
    Option (BufferCursor U × Node BufferText BufferSummary)
  | .before => endBeforeMarkers build
  | .after => endAfterMarkers build

omit [LawfulDimension U BufferSummary] in
theorem endBeforeMarkers_eq {next : Cursor BufferText BufferSummary CharOffset U} {start itemEnd : ℕ}
    {item : Option BufferText} (newContent : Node BufferText BufferSummary) (isStart : cursor.seekPosition = start)
    (isEnd : cursor.endSeekPosition build = some itemEnd) (isItem : cursor.item build = some item)
    (moves : cursor.next build = some next) : endBeforeMarkers build cursor newContent stop =
      if stop < itemEnd then
        match item with
        | some (.text fragment _) =>
          (appendFragment build newContent (fragment.take (stop - start))).map fun newContent => (⟨cursor, stop⟩, newContent)
        | _ => some (⟨cursor, stop⟩, newContent)
      else if start < stop ∧ 0 < stop then
        (match item with
          | some item => newContent.push build item
          | none => some newContent).map fun newContent => (⟨next, stop⟩, newContent)
      else some (⟨cursor, stop⟩, newContent) := by
  subst isStart
  unfold endBeforeMarkers
  rw [isEnd, isItem, moves]
  simp only [map_eq_bind, Function.comp_def]
  rfl

omit [LawfulDimension U BufferSummary] in
theorem splitFragment_eq {cursor next : Cursor BufferText BufferSummary CharOffset U} {start fragmentEnd offset : ℕ}
    {fragment : Str} {charCount : ℕ} (inFragment : start < offset) (isStart : cursor.seekPosition = start)
    (isEnd : cursor.endSeekPosition build = some fragmentEnd) (isItem : cursor.item build = some (some (.text fragment charCount)))
    (moves : cursor.next build = some next) : splitFragment build ⟨cursor, offset⟩ stop =
      (appendFragment build Node.new ((fragment.drop (offset - start)).take (stop - offset))).map fun newContent =>
        if stop < fragmentEnd then (⟨cursor, stop⟩, newContent, true) else (⟨next, offset⟩, newContent, false) := by
  subst isStart
  rw [splitFragment, isEnd, isItem, moves]
  refine (if_pos inFragment).trans ?_
  rw [map_eq_bind]
  change (appendFragment build Node.new _).bind _ = _
  refine congrArg (Option.bind _) (funext fun newContent => ?_)
  change (if stop < fragmentEnd then _ else _) = some (if stop < fragmentEnd then _ else _)
  split <;> rfl

section Steps

variable (wellFormed : ∀ item ∈ root.toList, item.WellFormed) {cursor : Cursor BufferText BufferSummary CharOffset U}
  {newContent : Node BufferText BufferSummary} {before after : List BufferText} {done taken : List Symbol}

include wellFormed

omit [LawfulDimension U BufferSummary] in
theorem width_eq_chars (parts : root.toList = before ++ after) : widthOf (symbolsOf before) = charsOf before := by
  rw [parts, forall_mem_append] at wellFormed
  exact widthOf_symbolsOf wellFormed.1

variable (holds : Holds build newContent taken) (takes : TakesAll Symbol.width side stop (widthOf done) taken)

include holds takes

omit [LawfulDimension U BufferSummary] in
theorem sliced_between (on : On root cursor before after) (place : symbolsOf before = done ++ taken)
    (reached : charsOf before = stop ∨ after = [] ∧ charsOf before ≤ stop)
    (stops : ∀ symbol more, symbolsOf after = symbol :: more → ¬ side.Takes stop (charsOf before) symbol.width) :
    Sliced build root side stop done taken (symbolsOf after) ⟨cursor, stop⟩ newContent where
  holds := holds
  isCut := by
    refine ⟨takes, fun symbol more isLeft => ?_⟩
    rw [total_width, ← widthOf_append, ← place, width_eq_chars wellFormed on.parts]
    exact stops symbol more isLeft
  goesOn := by
    rw [← place]
    rcases reached with rfl | ⟨rfl, le⟩
    · exact .between (.on on)
    · have whole : before = root.toList := by rw [on.parts, append_nil]
      subst whole
      exact .beyond on le
  offset_eq := rfl

omit [LawfulDimension U BufferSummary] in
theorem sliced_inside {fragment : Str} {charCount index count : ℕ} (on : On root cursor before (.text fragment charCount :: after))
    (place : symbolsOf before ++ (fragment.take index).map .char = done ++ taken) (pos : 0 < index + count)
    (inside : index + count < fragment.length) (isStop : charsOf before + (index + count) = stop) :
    ∃ tree, appendFragment build newContent ((fragment.drop index).take count) = some tree ∧
      Sliced build root side stop done (taken ++ ((fragment.drop index).take count).map .char)
        ((fragment.drop (index + count)).map .char ++ symbolsOf after) ⟨cursor, stop⟩ tree := by
  have formed : (BufferText.text fragment charCount).WellFormed := wellFormed _ (by rw [on.parts]; simp)
  obtain ⟨-, -, plain⟩ := formed
  have plain : '\n' ∉ (fragment.drop index).take count := fun member => plain (mem_of_mem_drop (mem_of_mem_take member))
  obtain ⟨tree, appended, treeHolds⟩ := holds.appendFragment plain
  have position : widthOf done + widthOf taken = charsOf before + index := by
    rw [← widthOf_append, ← place, widthOf_append, width_eq_chars wellFormed on.parts, widthOf_chars, length_take]
    omega
  have added : widthOf (((fragment.drop index).take count).map .char) = count := by
    rw [widthOf_chars, length_take, length_drop]
    omega
  refine ⟨tree, appended, treeHolds, ⟨takesAll_append.mpr ⟨takes, takesAll_of_pos ?_ ?_⟩, ?_⟩, ?_, rfl⟩
  · exact width_pos _
  · rw [total_width, total_width, added]
    omega
  · intro symbol more isLeft
    rw [drop_eq_getElem_cons inside, map_cons, cons_append] at isLeft
    cases isLeft
    rw [total_width, widthOf_append, added]
    cases side
    · show ¬ widthOf done + (widthOf taken + count) < stop
      omega
    · show ¬ widthOf done + (widthOf taken + count) + 1 ≤ stop
      omega
  · have joined : done ++ (taken ++ ((fragment.drop index).take count).map .char) =
        symbolsOf before ++ (fragment.take (index + count)).map .char := by
      rw [← append_assoc, ← place, append_assoc, ← map_append, take_add]
    rw [joined, ← isStop]
    exact .inside on pos inside

omit [LawfulDimension U BufferSummary] in
theorem sliced_start {item : BufferText} (on : On root cursor before (item :: after)) (place : symbolsOf before = done ++ taken)
    (ahead : charsOf before < stop) (inside : stop < charsOf before + item.textSummary.chars) :
    ∃ fragment charCount tree more left, item = .text fragment charCount ∧
      appendFragment build newContent (fragment.take (stop - charsOf before)) = some tree ∧
      symbolsOf (item :: after) = more ++ left ∧ Sliced build root side stop done (taken ++ more) left ⟨cursor, stop⟩ tree := by
  have formed : item.WellFormed := wellFormed _ (by rw [on.parts]; simp)
  by_cases isText : ∃ fragment charCount, item = .text fragment charCount
  · obtain ⟨fragment, charCount, rfl⟩ := isText
    obtain ⟨-, rfl, -⟩ := formed
    change stop < charsOf before + fragment.length at inside
    have isStop : charsOf before + (0 + (stop - charsOf before)) = stop := by omega
    obtain ⟨tree, appended, sliced⟩ :=
      sliced_inside wellFormed holds takes on (by simpa using place) (by omega) (by omega) isStop
    rw [Nat.zero_add] at sliced
    rw [drop_zero] at appended
    refine ⟨fragment, _, tree, _, _, rfl, appended, ?_, sliced⟩
    rw [symbolsOf_cons, ← append_assoc]
    congr 1
    exact symbols_split fragment _
  · have narrow := (BufferText.symbols_other fun fragment charCount same => isText ⟨fragment, charCount, same⟩).2
    omega

end Steps

section Ends

variable (rootWF : root.WF build) (low : root.height < stackCapacity) (wellFormed : ∀ item ∈ root.toList, item.WellFormed)
  {cursor : Cursor BufferText BufferSummary CharOffset U} {newContent : Node BufferText BufferSummary}
  {before after : List BufferText} {done taken : List Symbol} (on : On root cursor before after) (holds : Holds build newContent taken)
  (place : symbolsOf before = done ++ taken) (reached : charsOf before ≤ stop)

include rootWF low wellFormed on holds place reached

omit low [LawfulDimension U BufferSummary] in
theorem endAfterMarkers_spec (takes : TakesAll Symbol.width .after stop (widthOf done) taken)
    (stops : ∀ item rest, after = item :: rest → stop < charsOf (before ++ [item])) :
    ∃ next tree more left, endAfterMarkers build cursor newContent stop = some (next, tree) ∧ symbolsOf after = more ++ left ∧
      Sliced build root .after stop done (taken ++ more) left next tree := by
  have start : cursor.seekPosition = charsOf before := by rw [on.seekPosition_eq, dimensionOf_charOffset]
  have stay (isStop : charsOf before = stop ∨ after = [] ∧ charsOf before ≤ stop)
      (stops : ∀ symbol more, symbolsOf after = symbol :: more → ¬ Side.after.Takes stop (charsOf before) symbol.width) :
      Sliced build root .after stop done (taken ++ []) (symbolsOf after) ⟨cursor, stop⟩ newContent := by
    rw [append_nil]
    exact sliced_between wellFormed holds takes on place isStop stops
  unfold endAfterMarkers
  rw [on.item_eq rootWF, start]
  cases after with
  | nil =>
    refine ⟨⟨cursor, stop⟩, newContent, [], [], ?_, rfl, stay (.inr ⟨rfl, reached⟩) nofun⟩
    simp
  | cons item after =>
    have beyond := stops item after rfl
    rw [charsOf_append, charsOf_singleton] at beyond
    have formed : item.WellFormed := wellFormed _ (by rw [on.parts]; simp)
    by_cases ahead : charsOf before < stop
    · obtain ⟨fragment, charCount, tree, more, left, rfl, appended, parts, sliced⟩ :=
        sliced_start wellFormed holds takes on place ahead beyond
      refine ⟨⟨cursor, stop⟩, tree, more, left, ?_, parts, sliced⟩
      simp [ahead, appended]
    · have same : charsOf before = stop := by omega
      refine ⟨⟨cursor, stop⟩, newContent, [], symbolsOf (item :: after), ?_, rfl, stay (.inl same) ?_⟩
      · simp [ahead]
      · intro symbol more isHead
        have pos := formed.head_width (by omega) isHead
        show ¬ charsOf before + symbol.width ≤ stop
        omega

theorem endBeforeMarkers_spec (takes : TakesAll Symbol.width .before stop (widthOf done) taken)
    (stops : ∀ item rest, after = item :: rest → stop ≤ charsOf (before ++ [item])) :
    ∃ next tree more left, endBeforeMarkers build cursor newContent stop = some (next, tree) ∧ symbolsOf after = more ++ left ∧
      Sliced build root .before stop done (taken ++ more) left next tree := by
  have start : cursor.seekPosition = charsOf before := by rw [on.seekPosition_eq, dimensionOf_charOffset]
  have stay (isStop : charsOf before = stop) :
      Sliced build root .before stop done (taken ++ []) (symbolsOf after) ⟨cursor, stop⟩ newContent := by
    rw [append_nil]
    exact sliced_between wellFormed holds takes on place (.inl isStop) fun _ _ _ => Nat.not_lt.mpr isStop.ge
  obtain ⟨next, moves, onNext⟩ := on.next_spec rootWF low
  have isItem := on.item_eq rootWF
  cases after with
  | nil =>
    have isEnd := on.endSeekPosition_nil rootWF rfl
    rw [dimensionOf_charOffset] at isEnd
    have outside : ¬ stop < charsOf before := Nat.not_lt.mpr reached
    rw [endBeforeMarkers_eq newContent start isEnd isItem moves, if_neg outside]
    by_cases ahead : charsOf before < stop
    · rw [if_pos ⟨ahead, Nat.zero_lt_of_lt ahead⟩]
      refine ⟨⟨next, stop⟩, newContent, [], [], rfl, rfl, ?_⟩
      rw [append_nil]
      refine sliced_between wellFormed holds takes onNext ?_ (.inr ⟨rfl, ?_⟩) nofun
      · simpa using place
      · simpa using reached
    · rw [if_neg fun both => ahead both.1]
      exact ⟨⟨cursor, stop⟩, newContent, [], [], rfl, rfl, stay (by omega)⟩
  | cons item after =>
    have isEnd := on.endSeekPosition_eq rootWF rfl
    have beyond := stops item after rfl
    rw [dimensionOf_charOffset] at isEnd
    have split := charsOf_append before [item]
    rw [charsOf_singleton] at split
    rw [endBeforeMarkers_eq newContent start isEnd isItem moves]
    have formed : item.WellFormed := wellFormed _ (by rw [on.parts]; simp)
    by_cases inside : stop < charsOf (before ++ [item])
    · rw [if_pos inside]
      by_cases ahead : charsOf before < stop
      · rw [split] at inside
        obtain ⟨fragment, charCount, tree, more, left, rfl, appended, parts, sliced⟩ :=
          sliced_start wellFormed holds takes on place ahead inside
        refine ⟨⟨cursor, stop⟩, tree, more, left, ?_, parts, sliced⟩
        simp [appended]
      · have none : appendFragment build newContent [] = some newContent := if_pos rfl
        have same : stop - charsOf before = 0 := by omega
        refine ⟨⟨cursor, stop⟩, newContent, [], symbolsOf (item :: after), ?_, rfl, stay (by omega)⟩
        cases item <;> simp [same, none]
    · rw [if_neg inside]
      by_cases ahead : charsOf before < stop
      · rw [if_pos ⟨ahead, Nat.zero_lt_of_lt ahead⟩]
        obtain ⟨tree, pushed, treeHolds⟩ := holds.push formed
        refine ⟨⟨next, stop⟩, tree, item.symbols, symbolsOf after, ?_, symbolsOf_cons _ _, ?_⟩
        · simp [pushed]
        · refine sliced_between wellFormed treeHolds (takesAll_append.mpr ⟨takes, ?_⟩) onNext ?_ (.inl ?_) ?_
          · have position : widthOf done + total Symbol.width taken = charsOf before := by
              rw [total_width, ← widthOf_append, ← place, width_eq_chars wellFormed on.parts]
            rw [position]
            exact formed.takesAll ahead (by omega)
          · rw [take_one, List.head?_cons, toList_some, symbolsOf_append, place, append_assoc]
            simp [symbolsOf]
          · rw [take_one, List.head?_cons, toList_some]
            omega
          · rw [take_one, List.head?_cons, toList_some]
            exact fun _ _ _ => Nat.not_lt.mpr (by omega)
      · rw [if_neg fun both => ahead both.1]
        exact ⟨⟨cursor, stop⟩, newContent, [], symbolsOf (item :: after), rfl, rfl, stay (by omega)⟩

theorem endMarkers_spec {side : Side} (takes : TakesAll Symbol.width side stop (widthOf done) taken)
    (stops : ∀ item rest, after = item :: rest → Stops stop (seekBias side) (charsOf (before ++ [item]))) :
    ∃ next tree more left, endMarkers build side cursor newContent stop = some (next, tree) ∧ symbolsOf after = more ++ left ∧
      Sliced build root side stop done (taken ++ more) left next tree := by
  cases side with
  | before => exact endBeforeMarkers_spec rootWF low wellFormed on holds place reached takes stops
  | after => exact endAfterMarkers_spec rootWF wellFormed on holds place reached takes stops

end Ends



/-- Slices before and after the markers at an offset. -/
def sliceToOffset (build : Build) : Side → BufferCursor U → ℕ → Option (BufferCursor U × Node BufferText BufferSummary)
  | .before => sliceToOffsetBeforeMarkers build
  | .after => sliceToOffsetAfterMarkers build

omit [LawfulDimension U BufferSummary] in
theorem sliceToOffset_eq (side : Side) (self : BufferCursor U) : sliceToOffset build side self stop =
    (assertAhead build self stop).bind fun _ =>
      (self.splitFragment build stop).bind fun (self, newContent, done) =>
        if done then some (self, newContent)
        else
          (self.cursor.slice build (stop : CharOffset) (seekBias side)).bind fun (cursor, sliced) =>
            (newContent.pushTree build sliced).bind fun newContent => endMarkers build side cursor newContent stop := by
  cases side <;> rfl

theorem passes_spec (side : Side) (rootWF : root.WF build) (low : root.height < stackCapacity)
    (wellFormed : ∀ item ∈ root.toList, item.WellFormed) {before after : List BufferText} {done taken : List Symbol}
    (reaches : Reaches root cursor before after) (holds : Holds build newContent taken)
    (place : symbolsOf before = done ++ taken) (reached : charsOf before ≤ stop)
    (takes : TakesAll Symbol.width side stop (widthOf done) taken) :
    ∃ next sliced content passed rest, cursor.slice build (stop : CharOffset) (seekBias side) = some (next, sliced) ∧
      newContent.pushTree build sliced = some content ∧ after = passed ++ rest ∧ On root next (before ++ passed) rest ∧
      Holds build content (taken ++ symbolsOf passed) ∧ charsOf (before ++ passed) ≤ stop ∧
      TakesAll Symbol.width side stop (widthOf done) (taken ++ symbolsOf passed) ∧
      ∀ item more, rest = item :: more → Stops stop (seekBias side) (charsOf (before ++ passed ++ [item])) := by
  have monotone := charOffset_monotone root.toList
  have assertion : build.debugAssertions = true → dimensionOf CharOffset before ≤ (stop : CharOffset) := by
    rw [dimensionOf_charOffset]
    exact fun _ => reached
  obtain ⟨next, sliced, passed, rest, ran, parts, on, passes, slicedWF, items⟩ :=
    slice_spec rootWF low monotone reaches (stop : CharOffset) (seekBias side) assertion
  have formed : ∀ item ∈ before ++ passed ++ rest, item.WellFormed := by
    rw [← on.parts]
    exact wellFormed
  rw [forall_mem_append, forall_mem_append] at formed
  have slicedHolds : Holds build sliced (symbolsOf passed) :=
    ⟨slicedWF, by rw [items]; exact formed.1.2, by rw [items]⟩
  obtain ⟨content, pushed, contentHolds⟩ := holds.pushTree slicedHolds
  obtain ⟨beyond, stops⟩ := passes
  simp only [dimensionOf_charOffset] at beyond stops
  have position : widthOf done + total Symbol.width taken = charsOf before := by
    rw [total_width, ← widthOf_append, ← place, widthOf_symbolsOf formed.1.1]
  have width : total Symbol.width (symbolsOf passed) = charsOf passed := by rw [total_width, widthOf_symbolsOf formed.1.2]
  refine ⟨next, sliced, content, passed, rest, ran, pushed, parts, on, contentHolds, ?_, takesAll_append.mpr ⟨takes, ?_⟩, stops⟩
  · rcases beyond with rfl | beyond
    · rw [append_nil]
      exact reached
    · cases side
      · exact Nat.le_of_lt (Nat.not_le.mp beyond)
      · exact Nat.not_lt.mp beyond
  · rw [position]
    rcases beyond with rfl | beyond
    · exact trivial
    · have whole := charsOf_append before passed
      cases side
      · have beyond : charsOf (before ++ passed) < stop := Nat.not_le.mp beyond
        exact takesAll_of_lt (.inr (by omega))
      · have beyond : charsOf (before ++ passed) ≤ stop := Nat.not_lt.mp beyond
        exact takesAll_of_le (by omega)

section Slices

variable (rootWF : root.WF build) (low : root.height < stackCapacity) (wellFormed : ∀ item ∈ root.toList, item.WellFormed)
  {self : BufferCursor U} {done rest : List Symbol} (place : At root self done rest) (inOrder : self.offset ≤ stop)

include rootWF low wellFormed place inOrder

theorem splitFragment_spec (side : Side) :
    (∃ next tree taken left, self.splitFragment build stop = some (next, tree, true) ∧ rest = taken ++ left ∧
      Sliced build root side stop done taken left next tree) ∨
    ∃ next tree taken before after, self.splitFragment build stop = some (next, tree, false) ∧ rest = taken ++ symbolsOf after ∧
      Reaches root next.cursor before after ∧ symbolsOf before = done ++ taken ∧ charsOf before ≤ stop ∧ Holds build tree taken ∧
      TakesAll Symbol.width side stop (widthOf done) taken := by
  cases place with
  | @between cursor before after reaches =>
    refine .inr ⟨⟨cursor, charsOf before⟩, Node.new, [], before, after, ?_, rfl, reaches, (append_nil _).symm, inOrder, .new, trivial⟩
    rw [splitFragment, seekPosition_eq reaches]
    exact if_neg (Nat.lt_irrefl _)
  | @beyond cursor offset on le =>
    refine .inr ⟨⟨cursor, offset⟩, Node.new, [], root.toList, [], ?_, rfl, .on on, (append_nil _).symm, le.trans inOrder, .new, trivial⟩
    rw [splitFragment, on.item_eq rootWF]
    split <;> rfl
  | @inside cursor before fragment charCount after index on pos lt =>
    obtain ⟨next, moves, onNext⟩ := on.next_spec rootWF low
    have start : cursor.seekPosition = charsOf before := by rw [on.seekPosition_eq, dimensionOf_charOffset]
    have formed : (BufferText.text fragment charCount).WellFormed := wellFormed _ (by rw [on.parts]; simp)
    obtain ⟨-, rfl, plain⟩ := formed
    have isEnd : cursor.endSeekPosition build = some (charsOf before + fragment.length : ℕ) := by
      rw [on.endSeekPosition_eq rootWF rfl, dimensionOf_charOffset, charsOf_append, charsOf_singleton]
      rfl
    have eq := @splitFragment_eq _ _ build stop _ _ _ _ _ _ _ (Nat.lt_add_of_pos_right pos) start isEnd (on.item_eq rootWF) moves
    rw [Nat.add_sub_cancel_left] at eq
    change charsOf before + index ≤ stop at inOrder
    by_cases within : stop < charsOf before + fragment.length
    · have isStop : charsOf before + (index + (stop - (charsOf before + index))) = stop := by omega
      obtain ⟨tree, appended, sliced⟩ :=
        @sliced_inside U _ build root side stop wellFormed _ _ _ _ _ _ .new trivial _ _ _ _ on (append_nil _).symm
          (by omega) (by omega) isStop
      refine .inl ⟨⟨cursor, stop⟩, tree, _, _, ?_, ?_, sliced⟩
      · rw [eq, appended, map_some, if_pos within]
      · rw [nil_append, ← append_assoc, ← map_append, ← drop_drop, take_append_drop]
    · have whole : (fragment.drop index).take (stop - (charsOf before + index)) = fragment.drop index := by
        apply take_of_length_le
        rw [length_drop]
        omega
      have plain : '\n' ∉ fragment.drop index := fun member => plain (mem_of_mem_drop member)
      obtain ⟨tree, appended, holds⟩ := (@Holds.new build).appendFragment plain
      rw [whole, appended, map_some, if_neg within] at eq
      refine .inr ⟨⟨next, charsOf before + index⟩, tree, _, _, _, eq, rfl, .on onNext, ?_, ?_, holds, ?_⟩
      · rw [take_one, List.head?_cons, toList_some, symbolsOf_append, append_assoc,
          ← map_append, take_append_drop]
        simp [symbolsOf, BufferText.symbols]
      · rw [take_one, List.head?_cons, toList_some, charsOf_append, charsOf_singleton]
        exact Nat.not_lt.mp within
      · refine takesAll_of_pos ?_ ?_
        · exact width_pos _
        · rw [total_width, widthOf_append, widthOf_chars, widthOf_chars, length_take, length_drop,
            width_eq_chars wellFormed on.parts]
          omega

omit [Dimension U BufferSummary] [LawfulDimension U BufferSummary] rootWF low wellFormed place in
theorem assertAhead_spec (build : Build) : assertAhead build self stop = some ⟨⟩ := by
  rw [assertAhead, if_neg]
  exact fun both => Nat.not_lt.mpr inOrder both.2

theorem sliceToOffset_spec (side : Side) : ∃ next tree taken left, sliceToOffset build side self stop = some (next, tree) ∧
    rest = taken ++ left ∧ Sliced build root side stop done taken left next tree := by
  rw [sliceToOffset_eq, assertAhead_spec inOrder build, bind_some]
  rcases splitFragment_spec rootWF low wellFormed place inOrder side with
    ⟨next, tree, taken, left, split, parts, sliced⟩ |
      ⟨next, first, taken, before, after, split, parts, reaches, isBefore, reached, holds, takes⟩
  · rw [split]
    exact ⟨next, tree, taken, left, rfl, parts, sliced⟩
  · obtain ⟨moved, sliced, content, passed, others, ran, pushed, rfl, on, contentHolds, reached, takes, stops⟩ :=
      passes_spec side rootWF low wellFormed reaches holds isBefore reached takes
    have placed : symbolsOf (before ++ passed) = done ++ (taken ++ symbolsOf passed) := by
      rw [symbolsOf_append, isBefore, append_assoc]
    obtain ⟨last, tree, more, left, ended, isRest, result⟩ :=
      endMarkers_spec rootWF low wellFormed on contentHolds placed reached takes stops
    refine ⟨last, tree, taken ++ symbolsOf passed ++ more, left, ?_, ?_, result⟩
    · rw [split]
      change (Cursor.slice build next.cursor (stop : CharOffset) (seekBias side)).bind _ = _
      rw [ran]
      change (first.pushTree build sliced).bind _ = _
      rw [pushed]
      exact ended
    · rw [parts, symbolsOf_append, isRest]
      simp only [append_assoc]

end Slices

section Suffix

variable (rootWF : root.WF build) (low : root.height < stackCapacity) (wellFormed : ∀ item ∈ root.toList, item.WellFormed)

include rootWF low wellFormed

theorem pushSuffix_spec {cursor : Cursor BufferText BufferSummary CharOffset U} {newContent : Node BufferText BufferSummary}
    {before after : List BufferText} {taken : List Symbol} (reaches : Reaches root cursor before after)
    (holds : Holds build newContent taken) :
    ∃ tree, ((cursor.suffix build).bind fun (_, tree) => newContent.pushTree build tree) = some tree ∧
      Holds build tree (taken ++ symbolsOf after) := by
  obtain ⟨next, suffix, ran, suffixWF, items⟩ := suffix_spec rootWF low (charOffset_monotone root.toList) reaches
  have formed : ∀ item ∈ suffix.toList, item.WellFormed := by
    intro item member
    refine wellFormed item ?_
    rw [reaches.parts, ← items]
    exact mem_append_right _ member
  obtain ⟨tree, pushed, treeHolds⟩ := holds.pushTree ⟨suffixWF, formed, by rw [items]⟩
  exact ⟨tree, by rw [ran]; exact pushed, treeHolds⟩

theorem suffixOf_spec {self : BufferCursor U} {done rest : List Symbol} (place : At root self done rest) :
    ∃ tree, self.suffix build = some tree ∧ Holds build tree rest := by
  cases place with
  | @between cursor before after reaches =>
    obtain ⟨tree, pushed, holds⟩ := pushSuffix_spec rootWF low wellFormed reaches .new
    refine ⟨tree, ?_, holds⟩
    rw [suffix, seekPosition_eq reaches]
    exact (if_neg (Nat.lt_irrefl _)).trans pushed
  | @beyond cursor offset on le =>
    obtain ⟨tree, pushed, holds⟩ := pushSuffix_spec rootWF low wellFormed (.on on) .new
    refine ⟨tree, ?_, holds⟩
    rw [suffix, on.item_eq rootWF]
    split
    · exact pushed
    · exact pushed
  | @inside cursor before fragment charCount after index on pos lt =>
    obtain ⟨next, moves, onNext⟩ := on.next_spec rootWF low
    have formed : (BufferText.text fragment charCount).WellFormed := wellFormed _ (by rw [on.parts]; simp)
    obtain ⟨-, -, plain⟩ := formed
    have plain : '\n' ∉ fragment.drop index := fun member => plain (mem_of_mem_drop member)
    obtain ⟨first, appended, firstHolds⟩ := (@Holds.new build).appendFragment plain
    obtain ⟨tree, pushed, holds⟩ := pushSuffix_spec rootWF low wellFormed (.on onNext) firstHolds
    refine ⟨tree, ?_, holds⟩
    have ahead : (⟨cursor, charsOf before + index⟩ : BufferCursor U).seekPosition < charsOf before + index := by
      rw [seekPosition_eq (.on on)]
      omega
    rw [suffix, on.item_eq rootWF]
    refine (if_pos ahead).trans ?_
    change (appendFragment build Node.new
      (fragment.drop (charsOf before + index - (⟨cursor, charsOf before + index⟩ : BufferCursor U).seekPosition))).bind _ = _
    rw [seekPosition_eq (.on on), Nat.add_sub_cancel_left, appended, bind_some, moves]
    exact pushed

end Suffix

section Pieces

/-- Slices up to offsets, and the suffix after them. -/
def pieces (build : Build) : List (Side × ℕ) → BufferCursor U → Option (List (Node BufferText BufferSummary))
  | [], self => (self.suffix build).map ([·])
  | (side, stop) :: cuts, self =>
    (sliceToOffset build side self stop).bind fun (self, slice) => (pieces build cuts self).map (slice :: ·)

variable (rootWF : root.WF build) (low : root.height < stackCapacity) (wellFormed : ∀ item ∈ root.toList, item.WellFormed)

include rootWF low wellFormed

theorem pieces_spec (cuts : List (Side × ℕ)) {self : BufferCursor U} {done rest : List Symbol} (place : At root self done rest)
    (ascending : (self.offset :: cuts.map Prod.snd).Pairwise (· ≤ ·)) :
    ∃ trees, pieces build cuts self = some trees ∧
      List.Forall₂ (Holds build) trees (cutAll Symbol.width cuts (widthOf done) rest) := by
  induction cuts generalizing self done rest with
  | nil =>
    obtain ⟨tree, ran, holds⟩ := suffixOf_spec rootWF low wellFormed place
    exact ⟨[tree], by rw [pieces, ran]; rfl, .cons holds .nil⟩
  | cons cut cuts ih =>
    obtain ⟨side, stop⟩ := cut
    obtain ⟨first, ascending⟩ := List.pairwise_cons.mp ascending
    obtain ⟨next, tree, taken, left, ran, rfl, sliced⟩ :=
      sliceToOffset_spec rootWF low wellFormed place (first stop (by simp)) side
    rw [map_cons, ← sliced.offset_eq] at ascending
    obtain ⟨trees, ranOn, matched⟩ := ih sliced.goesOn ascending
    refine ⟨tree :: trees, ?_, ?_⟩
    · simp [pieces, ran, ranOn]
    · rw [cutAll, sliced.isCut.cut_eq]
      refine .cons sliced.holds ?_
      rw [total_width, ← widthOf_append]
      exact matched

end Pieces

theorem join_spec {symbols : List Symbol} (holds : Holds build newContent symbols)
    (matched : List.Forall₂ (Holds build) trees parts) :
    ∃ joined, trees.foldlM (Node.pushTree build) newContent = some joined ∧ Holds build joined (symbols ++ parts.flatten) := by
  induction matched generalizing newContent symbols with
  | nil => exact ⟨newContent, rfl, by rwa [flatten_nil, append_nil]⟩
  | cons first _ ih =>
    obtain ⟨content, pushed, contentHolds⟩ := holds.pushTree first
    obtain ⟨joined, ran, joinedHolds⟩ := ih contentHolds
    refine ⟨joined, ?_, ?_⟩
    · rw [foldlM_cons, pushed]
      exact ran
    · rw [flatten_cons, ← append_assoc]
      exact joinedHolds

theorem symbols_of_holds (matched : List.Forall₂ (Holds build) trees parts) :
    trees.map (fun tree => symbolsOf tree.toList) = parts ∧
      ∀ tree ∈ trees, ∀ item ∈ tree.toList, item.WellFormed := by
  induction matched with
  | nil => exact ⟨rfl, nofun⟩
  | cons first _ ih => exact ⟨by rw [map_cons, first.symbols, ih.1], List.forall_mem_cons.mpr ⟨first.wellFormed, ih.2⟩⟩

def markedItems : List BufferText :=
  [.text ['a', 'b'] 2, .marker .italic .start, .text ['é', 'd'] 2, .newline]

def marked : BufferContent release := .ofItems release markedItems (by decide) (by
  simp only [markedItems, forall_mem_cons, BufferText.WellFormed, not_mem_nil, false_implies, implies_true]
  decide)

end BufferCursor

end Warp.Editor.Content
