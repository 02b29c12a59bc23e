import Warp.Editor.Content.BufferText

namespace Warp.Editor.Content

open SumTree Str List

section Conversions

variable (build : Build) (content : Node BufferText BufferSummary)

def summaryUpTo (D : Type) [Dimension D BufferSummary] [LinearOrder D] (stop : D) : Option (TextSummary × Option BufferText) :=
  ((Cursor.new content : Cursor BufferText BufferSummary D TextSummary).summary build stop .right).bind
    fun (fragmentsCursor, textSummary) => (fragmentsCursor.item build).map (textSummary, ·)

def Point.toBufferCharOffset (self : Point) : Option ℕ :=
  (summaryUpTo build content Point self).map fun (textSummary, _) => textSummary.chars + (self.column - textSummary.lines.column)

/-- A position inside of a character counts as the start of its fragment. -/
def ByteOffset.toBufferCharOffset (self : ℕ) : Option ℕ :=
  (summaryUpTo build content ByteOffset self).map fun (textSummary, item) =>
    let delta := self - textSummary.bytes
    match item with
    | some (.text fragment _) =>
      if 0 < delta then textSummary.chars + ((splitBytes fragment delta).map fun parts => parts.1.length).getD 0
      else textSummary.chars
    | _ => textSummary.chars

def CharOffset.toBufferByteOffset (self : ℕ) : Option ℕ :=
  (summaryUpTo build content CharOffset self).map fun (textSummary, item) =>
    let delta := self - textSummary.chars
    match item with
    | some (.text fragment _) =>
      if 0 < delta ∧ delta < fragment.length then textSummary.bytes + byteLen (fragment.take delta) else textSummary.bytes
    | _ => textSummary.bytes

def CharOffset.toBufferPoint (self : ℕ) : Option Point :=
  (summaryUpTo build content CharOffset self).map fun (textSummary, _) =>
    ⟨textSummary.lines.row, textSummary.lines.column + (self - textSummary.chars)⟩

end Conversions

section Sizes

/-- A summary of something that takes up space in all coordinates. -/
structure TextSummary.Sized (summary : TextSummary) : Prop where
  chars : 0 < summary.chars
  bytes : 0 < summary.bytes
  lines : 0 < summary.lines

def Symbol.Plain : Symbol → Prop
  | .item (.text _ _) => False
  | _ => True

theorem plain_of_mem {items : List BufferText} {symbol : Symbol} (member : symbol ∈ symbolsOf items) : symbol.Plain := by
  obtain ⟨item, -, member⟩ := List.mem_flatMap.mp member
  cases item with
  | text fragment charCount =>
    obtain ⟨c, -, rfl⟩ := List.mem_map.mp member
    exact trivial
  | _ =>
    rw [List.mem_singleton.mp member]
    exact trivial

variable {first second : TextSummary} {symbol : Symbol} {symbols : List Symbol}

theorem TextSummary.Sized.add_right (sized : first.Sized) (second : TextSummary) : (first + second).Sized where
  chars := Nat.add_pos_left sized.chars _
  bytes := Nat.add_pos_left sized.bytes _
  lines := lt_of_lt_of_le sized.lines (Point.le_add _ _)

theorem Point.column_pos : (0 : Point) < ⟨0, 1⟩ := Point.lt_iff.mpr (.inr ⟨rfl, Nat.one_pos⟩)

theorem Point.row_pos : (0 : Point) < ⟨1, 0⟩ := Point.lt_iff.mpr (.inl Nat.one_pos)

theorem Symbol.Plain.textSummary (plain : symbol.Plain) : symbol.textSummary = 0 ∨ symbol.textSummary.Sized := by
  cases symbol with
  | char c => exact .inr ⟨Nat.one_pos, c.utf8Size_pos, Point.column_pos⟩
  | item other =>
    cases other with
    | text fragment charCount => exact plain.elim
    | marker _ _ | link _ | color _ => exact .inl rfl
    | newline | blockMarker _ => exact .inr ⟨Nat.one_pos, Nat.one_pos, Point.row_pos⟩
    | placeholder _ => exact .inr ⟨Nat.one_pos, Nat.one_pos, Point.column_pos⟩
    | blockItem itemType => cases itemType <;> exact .inr ⟨Nat.one_pos, Nat.one_pos, Point.row_pos⟩

theorem Symbol.Plain.width_le_one (plain : symbol.Plain) : symbol.width ≤ 1 := by
  cases symbol with
  | char c => exact Nat.le_refl 1
  | item other => exact (BufferText.symbols_other fun fragment charCount same => by rw [same] at plain; exact plain).2

theorem summaryOf_sized (plain : ∀ symbol ∈ symbols, symbol.Plain) : summaryOf symbols = 0 ∨ (summaryOf symbols).Sized := by
  induction symbols with
  | nil => exact .inl rfl
  | cons symbol symbols ih =>
    obtain ⟨first, rest⟩ := List.forall_mem_cons.mp plain
    have split : summaryOf (symbol :: symbols) = symbol.textSummary + summaryOf symbols := by simp [summaryOf]
    rw [split]
    rcases first.textSummary with none | sized
    · rw [none, zero_add]
      exact ih rest
    · exact .inr (sized.add_right _)

end Sizes

section Places

structure Measures (D : Type) [Dimension D BufferSummary] [LinearOrder D] (measure : TextSummary → D) : Prop where
  dimensionOf_eq : ∀ items : List BufferText, dimensionOf D items = measure (textOf items)
  le_add : ∀ first second, measure first ≤ measure (first + second)
  grows : ∀ first second, second.Sized → measure first < measure (first + second)
  least : ∀ d, measure 0 ≤ d

theorem measures_chars : Measures CharOffset TextSummary.chars where
  dimensionOf_eq := dimensionOf_charOffset
  le_add _ _ := Nat.le_add_right _ _
  grows _ _ sized := Nat.lt_add_of_pos_right sized.chars
  least (d : ℕ) := Nat.zero_le d

theorem measures_bytes : Measures ByteOffset TextSummary.bytes where
  dimensionOf_eq := dimensionOf_byteOffset
  le_add _ _ := Nat.le_add_right _ _
  grows _ _ sized := Nat.lt_add_of_pos_right sized.bytes
  least (d : ℕ) := Nat.zero_le d

theorem measures_lines : Measures Point TextSummary.lines where
  dimensionOf_eq := dimensionOf_point
  le_add _ _ := Point.le_add _ _
  grows first second sized := by
    have pos := Point.lt_iff.mp sized.lines
    change first.lines < first.lines + second.lines
    rw [Point.add_def]
    split
    · rename_i sameRow
      rw [sameRow] at pos
      exact Point.lt_iff.mpr (.inr ⟨rfl, Nat.lt_add_of_pos_right (pos.resolve_left (Nat.lt_irrefl 0)).2⟩)
    · rename_i otherRow
      exact Point.lt_iff.mpr (.inl (Nat.lt_add_of_pos_right (Nat.pos_of_ne_zero otherRow)))
  least point := by
    have grows := Point.le_add 0 point
    rwa [Point.zero_add] at grows

variable {D : Type} [Dimension D BufferSummary] [LinearOrder D] {measure : TextSummary → D} (measures : Measures D measure)
  {passed rest : List BufferText} {before after : List Symbol}

include measures

theorem Measures.place (wellFormed : ∀ item ∈ passed ++ rest, item.WellFormed) (split : symbolsOf (passed ++ rest) = before ++ after)
    (passes : Passes (measure (summaryOf before)) .right [] passed rest) :
    (∃ more, symbolsOf passed = before ++ more ∧ summaryOf more = 0) ∨
      ∃ fragment charCount more index, rest = .text fragment charCount :: more ∧ 0 < index ∧ index < fragment.length ∧
        before = symbolsOf passed ++ (fragment.take index).map .char := by
  rw [forall_mem_append] at wellFormed
  have passedSummary : summaryOf (symbolsOf passed) = textOf passed := summaryOf_symbolsOf wellFormed.1
  have plain : ∀ symbol ∈ symbolsOf passed ++ symbolsOf rest, symbol.Plain := by
    rw [← symbolsOf_append]
    exact fun _ => plain_of_mem
  rw [symbolsOf_append] at split
  rcases List.append_eq_append_iff.mp split with ⟨more, isBefore, isRest⟩ | ⟨more, isPassed, isAfter⟩
  · rw [isBefore, summaryOf_append, passedSummary] at passes
    have stops := passes.stops
    cases rest with
    | nil => exact .inl ⟨[], by rw [isBefore, (List.append_eq_nil_iff.mp isRest.symm).1]; simp, rfl⟩
    | cons item rest =>
      have formed : item.WellFormed := wellFormed.2 _ (by simp)
      have short := stops item rest rfl
      rw [nil_append, measures.dimensionOf_eq, textOf_append] at short
      have itemSummary : textOf [item] = summaryOf item.symbols := by
        rw [formed.summaryOf_symbols]
        simp [textOf]
      rw [itemSummary] at short
      have notWhole : ∀ others, more ≠ item.symbols ++ others := by
        rintro others rfl
        refine not_le_of_gt short ?_
        rw [summaryOf_append, ← add_assoc]
        exact measures.le_add _ _
      rw [symbolsOf_cons] at isRest
      rcases List.append_eq_append_iff.mp isRest with ⟨others, isMore, -⟩ | ⟨others, isItem, -⟩
      · exact absurd isMore (notWhole others)
      · have some : others ≠ [] := by
          rintro rfl
          exact notWhole [] (by rw [isItem, append_nil, append_nil])
        have others_pos := List.length_pos_iff.mpr some
        by_cases empty : more = []
        · exact .inl ⟨[], by rw [isBefore, empty]; simp, rfl⟩
        · have more_pos := List.length_pos_iff.mpr empty
          by_cases isText : ∃ fragment charCount, item = .text fragment charCount
          · obtain ⟨fragment, charCount, rfl⟩ := isText
            obtain ⟨front, back, rfl, rfl, rfl⟩ := List.map_eq_append_iff.mp isItem
            rw [length_map] at more_pos others_pos
            refine .inr ⟨front ++ back, charCount, rest, front.length, rfl, more_pos, ?_, ?_⟩
            · rw [length_append]
              omega
            · rw [take_left, isBefore]
          · have single := congrArg List.length isItem
            rw [(BufferText.symbols_other fun fragment charCount same => isText ⟨fragment, charCount, same⟩).1,
              length_singleton, length_append] at single
            omega
  · left
    rw [isPassed, summaryOf_append] at passedSummary
    have plainMore : ∀ symbol ∈ more, symbol.Plain := fun symbol member =>
      plain symbol (mem_append_left _ (by rw [isPassed]; exact mem_append_right _ member))
    rcases summaryOf_sized plainMore with none | sized
    · exact ⟨more, isPassed, none⟩
    · rcases passes.beyond with rfl | beyond
      · exact ⟨more, isPassed, by rw [(List.append_eq_nil_iff.mp isPassed.symm).2]; rfl⟩
      · refine absurd ?_ beyond
        rw [nil_append, measures.dimensionOf_eq, ← passedSummary]
        exact measures.grows _ _ sized

theorem Measures.monotone {E : Type} [Dimension E BufferSummary] [LinearOrder E] {other : TextSummary → E} (others : Measures E other)
    {symbols first second : List Symbol} (plain : ∀ symbol ∈ symbols, symbol.Plain) (isFirst : first <+: symbols)
    (isSecond : second <+: symbols) (le : measure (summaryOf first) ≤ measure (summaryOf second)) :
    other (summaryOf first) ≤ other (summaryOf second) := by
  rcases prefix_or_prefix_of_prefix isFirst isSecond with ⟨more, rfl⟩ | ⟨more, rfl⟩
  · rw [summaryOf_append]
    exact others.le_add _ _
  · have plainMore : ∀ symbol ∈ more, symbol.Plain := fun symbol member =>
      plain symbol (isFirst.subset (mem_append_right _ member))
    rw [summaryOf_append] at le ⊢
    rcases summaryOf_sized plainMore with none | sized
    · rw [none, add_zero]
    · exact absurd (measures.grows _ _ sized) (not_lt_of_ge le)

variable [LawfulDimension D BufferSummary] {build : Build} (content : BufferContent build)

theorem Measures.summaryUpTo_spec (stop : D) : ∃ passed rest, summaryUpTo build content.tree D stop = some (textOf passed, rest.head?) ∧
    content.tree.toList = passed ++ rest ∧ Passes stop .right [] passed rest := by
  have monotone : PrefixSumsMonotone D content.tree.toList := by
    refine prefixSumsMonotone_of_append fun first second => ?_
    rw [measures.dimensionOf_eq, measures.dimensionOf_eq, textOf_append]
    exact measures.le_add _ _
  have assertion : build.debugAssertions = true → dimensionOf D ([] : List BufferText) ≤ stop := by
    rw [measures.dimensionOf_eq]
    exact fun _ => measures.least stop
  obtain ⟨next, passed, rest, ran, parts, on, passes⟩ :=
    summary_spec (U := TextSummary) (A := TextSummary) content.wf content.low monotone .fresh stop .right assertion
  refine ⟨passed, rest, ?_, parts, passes⟩
  simp [summaryUpTo, ran, on.item_eq content.wf, dimensionOf_textSummary]

theorem Measures.summaryUpTo_place (split : symbolsOf content.tree.toList = before ++ after) :
    ∃ summary item, summaryUpTo build content.tree D (measure (summaryOf before)) = some (summary, item) ∧
      (summaryOf before = summary ∨ ∃ fragment charCount index, item = some (.text fragment charCount) ∧ 0 < index ∧
        index < fragment.length ∧ summaryOf before = summary + summaryOf ((fragment.take index).map .char)) := by
  obtain ⟨passed, rest, ran, parts, passes⟩ := measures.summaryUpTo_spec content (measure (summaryOf before))
  refine ⟨textOf passed, rest.head?, ran, ?_⟩
  have wellFormed := content.wellFormed
  rw [parts] at wellFormed split
  rw [forall_mem_append] at wellFormed
  have passedSummary : summaryOf (symbolsOf passed) = textOf passed := summaryOf_symbolsOf wellFormed.1
  rcases measures.place (List.forall_mem_append.mpr wellFormed) split passes with
    ⟨more, isPassed, none⟩ | ⟨fragment, charCount, more, index, rfl, pos, lt, isBefore⟩
  · rw [isPassed, summaryOf_append, none, add_zero] at passedSummary
    exact .inl passedSummary
  · rw [isBefore, summaryOf_append, passedSummary]
    exact .inr ⟨fragment, charCount, index, rfl, pos, lt, rfl⟩

theorem Measures.summaryUpTo_beyond {stop : D} (beyond : measure (summaryOf (symbolsOf content.tree.toList)) ≤ stop) :
    summaryUpTo build content.tree D stop = some (summaryOf (symbolsOf content.tree.toList), none) := by
  obtain ⟨passed, rest, ran, parts, passes⟩ := measures.summaryUpTo_spec content stop
  rw [summaryOf_symbolsOf content.wellFormed, parts] at beyond ⊢
  cases rest with
  | nil => rw [append_nil]; exact ran
  | cons item rest =>
    have short := passes.stops item rest rfl
    rw [nil_append, measures.dimensionOf_eq] at short
    have whole : textOf (passed ++ item :: rest) = textOf (passed ++ [item]) + textOf rest := by
      rw [← textOf_append, append_assoc]
      rfl
    rw [whole] at beyond
    exact absurd (le_trans (measures.le_add _ _) beyond) (not_le_of_gt short)

end Places

section Exact

variable {build : Build} {content : BufferContent build} {before after : List Symbol}

section

variable (split : symbolsOf content.tree.toList = before ++ after)
include split

theorem toBufferByteOffset_spec :
    CharOffset.toBufferByteOffset build content.tree (summaryOf before).chars = some (summaryOf before).bytes := by
  obtain ⟨summary, item, ran, place⟩ := measures_chars.summaryUpTo_place content split
  rw [CharOffset.toBufferByteOffset, ran]
  rcases place with same | ⟨fragment, charCount, index, rfl, pos, lt, same⟩
  · cases item with
    | none => simp [same]
    | some item => cases item <;> simp [same]
  · have isInside : 0 < (fragment.take index).length ∧ (fragment.take index).length < fragment.length := by
      rw [length_take]
      omega
    rw [same, summaryOf_chars, TextSummary.add_def, Option.map_some]
    dsimp only
    rw [Nat.add_sub_cancel_left, if_pos isInside, length_take, Nat.min_eq_left (Nat.le_of_lt lt)]

theorem toBufferPoint_spec :
    CharOffset.toBufferPoint build content.tree (summaryOf before).chars = some (summaryOf before).lines := by
  obtain ⟨summary, item, ran, place⟩ := measures_chars.summaryUpTo_place content split
  rw [CharOffset.toBufferPoint, ran]
  rcases place with same | ⟨fragment, charCount, index, rfl, pos, lt, same⟩
  · simp [same]
  · rw [same, summaryOf_chars, TextSummary.add_def, Option.map_some]
    dsimp only
    rw [Nat.add_sub_cancel_left, Point.add_def, if_pos rfl]

theorem byte_toBufferCharOffset_spec :
    ByteOffset.toBufferCharOffset build content.tree (summaryOf before).bytes = some (summaryOf before).chars := by
  obtain ⟨summary, item, ran, place⟩ := measures_bytes.summaryUpTo_place content split
  rw [ByteOffset.toBufferCharOffset, ran]
  rcases place with same | ⟨fragment, charCount, index, rfl, pos, lt, same⟩
  · cases item with
    | none => simp [same]
    | some item => cases item <;> simp [same]
  · have cut : splitBytes fragment (byteLen (fragment.take index)) = some (fragment.take index, fragment.drop index) :=
      splitBytes_eq_some_iff.mpr ⟨(take_append_drop index fragment).symm, rfl⟩
    have some : 0 < byteLen (fragment.take index) := by
      refine Nat.lt_of_lt_of_le ?_ (length_le_byteLen _)
      rw [length_take]
      omega
    rw [same, summaryOf_chars, TextSummary.add_def, Option.map_some]
    dsimp only
    rw [Nat.add_sub_cancel_left, if_pos some, cut]
    rfl

theorem point_toBufferCharOffset_spec :
    Point.toBufferCharOffset build content.tree (summaryOf before).lines = some (summaryOf before).chars := by
  obtain ⟨summary, item, ran, place⟩ := measures_lines.summaryUpTo_place content split
  rw [Point.toBufferCharOffset, ran]
  rcases place with same | ⟨fragment, charCount, index, rfl, pos, lt, same⟩
  · simp [same]
  · rw [same, summaryOf_chars, TextSummary.add_def, Option.map_some]
    dsimp only
    rw [Point.add_def, if_pos rfl, Nat.add_sub_cancel_left]

end

variable {offset : ℕ}

theorem toBufferByteOffset_beyond (beyond : widthOf (symbolsOf content.tree.toList) ≤ offset) :
    CharOffset.toBufferByteOffset build content.tree offset = some (summaryOf (symbolsOf content.tree.toList)).bytes := by
  rw [CharOffset.toBufferByteOffset, measures_chars.summaryUpTo_beyond content beyond]
  rfl

theorem toBufferPoint_beyond (beyond : widthOf (symbolsOf content.tree.toList) ≤ offset) :
    CharOffset.toBufferPoint build content.tree offset = some
      ((summaryOf (symbolsOf content.tree.toList)).lines + ⟨0, offset - widthOf (symbolsOf content.tree.toList)⟩) := by
  rw [CharOffset.toBufferPoint, measures_chars.summaryUpTo_beyond content beyond]
  rfl

theorem byte_toBufferCharOffset_beyond (beyond : (summaryOf (symbolsOf content.tree.toList)).bytes ≤ offset) :
    ByteOffset.toBufferCharOffset build content.tree offset = some (widthOf (symbolsOf content.tree.toList)) := by
  rw [ByteOffset.toBufferCharOffset, measures_bytes.summaryUpTo_beyond content beyond]
  rfl

theorem exists_prefix {symbols : List Symbol} (plain : ∀ symbol ∈ symbols, symbol.Plain) (offset : ℕ) :
    ∃ before after, symbols = before ++ after ∧
      ((summaryOf before).chars = offset ∨ after = [] ∧ (summaryOf before).chars ≤ offset) := by
  induction symbols generalizing offset with
  | nil => exact ⟨[], [], rfl, .inr ⟨rfl, Nat.zero_le _⟩⟩
  | cons symbol symbols ih =>
    obtain ⟨first, rest⟩ := List.forall_mem_cons.mp plain
    cases offset with
    | zero => exact ⟨[], symbol :: symbols, rfl, .inl rfl⟩
    | succ offset =>
      have narrow := first.width_le_one
      obtain ⟨before, after, rfl, place⟩ := ih rest (offset + 1 - symbol.width)
      have sum : (summaryOf (symbol :: before)).chars = symbol.width + (summaryOf before).chars := widthOf_cons symbol before
      refine ⟨symbol :: before, after, rfl, ?_⟩
      rw [sum]
      rcases place with same | ⟨none, le⟩
      · exact .inl (by omega)
      · exact .inr ⟨none, by omega⟩

theorem charOffset_place (content : BufferContent build) (offset : ℕ) : ∃ before after,
    symbolsOf content.tree.toList = before ++ after ∧
      ((summaryOf before).chars = offset ∨ after = [] ∧ (summaryOf before).chars ≤ offset) ∧
      CharOffset.toBufferByteOffset build content.tree offset = some (summaryOf before).bytes ∧
      CharOffset.toBufferPoint build content.tree offset =
        some ((summaryOf before).lines + ⟨0, offset - (summaryOf before).chars⟩) := by
  obtain ⟨before, after, split, place⟩ := exists_prefix (fun _ => plain_of_mem) offset
  refine ⟨before, after, split, place, ?_⟩
  rcases place with rfl | ⟨rfl, le⟩
  · refine ⟨toBufferByteOffset_spec split, ?_⟩
    rw [toBufferPoint_spec split, Nat.sub_self]
    rfl
  · rw [append_nil] at split
    subst split
    exact ⟨toBufferByteOffset_beyond le, toBufferPoint_beyond le⟩

def OnBoundary (symbols : List Symbol) (byte : ℕ) : Prop :=
  ∃ before after, symbols = before ++ after ∧ ((summaryOf before).bytes = byte ∨ after = [] ∧ (summaryOf before).bytes ≤ byte)

def IsPoint (symbols : List Symbol) (point : Point) : Prop := ∃ before after, symbols = before ++ after ∧ (summaryOf before).lines = point

theorem byteOffset_place {byte : ℕ} (boundary : OnBoundary (symbolsOf content.tree.toList) byte) : ∃ before after,
    symbolsOf content.tree.toList = before ++ after ∧
      ((summaryOf before).bytes = byte ∨ after = [] ∧ (summaryOf before).bytes ≤ byte) ∧
      ByteOffset.toBufferCharOffset build content.tree byte = some (summaryOf before).chars := by
  obtain ⟨before, after, split, place⟩ := boundary
  refine ⟨before, after, split, place, ?_⟩
  rcases place with rfl | ⟨rfl, le⟩
  · exact byte_toBufferCharOffset_spec split
  · rw [append_nil] at split
    subst split
    exact byte_toBufferCharOffset_beyond le

variable (content : BufferContent build)

theorem charOffset_roundTrip (inside : offset ≤ widthOf (symbolsOf content.tree.toList)) :
    (CharOffset.toBufferByteOffset build content.tree offset).bind (ByteOffset.toBufferCharOffset build content.tree) = some offset ∧
    (CharOffset.toBufferPoint build content.tree offset).bind (Point.toBufferCharOffset build content.tree) = some offset := by
  obtain ⟨before, after, split, place⟩ := exists_prefix (fun _ => plain_of_mem) offset
  have same : (summaryOf before).chars = offset := by
    rcases place with same | ⟨rfl, le⟩
    · exact same
    · rw [append_nil] at split
      subst split
      exact Nat.le_antisymm le inside
  subst same
  rw [toBufferByteOffset_spec split, toBufferPoint_spec split]
  exact ⟨byte_toBufferCharOffset_spec split, point_toBufferCharOffset_spec split⟩

theorem charOffset_mono {first second : ℕ} (le : first ≤ second) : ∃ firstByte secondByte firstPoint secondPoint,
    CharOffset.toBufferByteOffset build content.tree first = some firstByte ∧
    CharOffset.toBufferByteOffset build content.tree second = some secondByte ∧ firstByte ≤ secondByte ∧
    CharOffset.toBufferPoint build content.tree first = some firstPoint ∧
    CharOffset.toBufferPoint build content.tree second = some secondPoint ∧ firstPoint ≤ secondPoint := by
  obtain ⟨before, after, split, place, isByte, isPoint⟩ := charOffset_place content first
  obtain ⟨others, rest, otherSplit, otherPlace, otherByte, otherPoint⟩ := charOffset_place content second
  have isPrefix : before <+: symbolsOf content.tree.toList := ⟨after, split.symm⟩
  have otherPrefix : others <+: symbolsOf content.tree.toList := ⟨rest, otherSplit.symm⟩
  have plain : ∀ symbol ∈ symbolsOf content.tree.toList, symbol.Plain := fun _ => plain_of_mem
  have chars : (summaryOf before).chars ≤ (summaryOf others).chars := by
    rcases otherPlace with same | ⟨rfl, -⟩
    · rcases place with place | ⟨-, place⟩ <;> omega
    · rw [append_nil] at otherSplit
      rw [← otherSplit, split, summaryOf_append]
      exact Nat.le_add_right _ _
  have lines := measures_chars.monotone measures_lines plain isPrefix otherPrefix chars
  refine ⟨_, _, _, _, isByte, otherByte, measures_chars.monotone measures_bytes plain isPrefix otherPrefix chars, isPoint, otherPoint, ?_⟩
  rcases place with same | ⟨rfl, -⟩
  · rw [same, Nat.sub_self]
    exact lines.trans (Point.le_add _ _)
  · rw [append_nil] at split
    have atMost : (summaryOf others).chars ≤ (summaryOf before).chars := by
      rw [← split, otherSplit, summaryOf_append]
      exact Nat.le_add_right _ _
    have same : (summaryOf others).lines = (summaryOf before).lines :=
      le_antisymm (measures_chars.monotone measures_lines plain otherPrefix isPrefix atMost) lines
    rw [same, Point.add_def, Point.add_def, if_pos rfl, if_pos rfl, Point.le_iff]
    exact .inr ⟨rfl, by dsimp only; omega⟩

theorem byteOffset_mono {first second : ℕ} (firstBoundary : OnBoundary (symbolsOf content.tree.toList) first)
    (secondBoundary : OnBoundary (symbolsOf content.tree.toList) second) (le : first ≤ second) : ∃ firstChar secondChar,
    ByteOffset.toBufferCharOffset build content.tree first = some firstChar ∧
    ByteOffset.toBufferCharOffset build content.tree second = some secondChar ∧ firstChar ≤ secondChar := by
  obtain ⟨before, after, split, place, isChar⟩ := byteOffset_place firstBoundary
  obtain ⟨others, rest, otherSplit, otherPlace, otherChar⟩ := byteOffset_place secondBoundary
  refine ⟨_, _, isChar, otherChar, ?_⟩
  refine measures_bytes.monotone measures_chars (fun _ => plain_of_mem) ⟨after, split.symm⟩ ⟨rest, otherSplit.symm⟩ ?_
  rcases otherPlace with same | ⟨rfl, -⟩
  · change (summaryOf before).bytes ≤ (summaryOf others).bytes
    rcases place with place | ⟨-, place⟩ <;> omega
  · rw [append_nil] at otherSplit
    rw [← otherSplit, split, summaryOf_append]
    exact Nat.le_add_right _ _

theorem point_mono {first second : Point} (isFirst : IsPoint (symbolsOf content.tree.toList) first)
    (isSecond : IsPoint (symbolsOf content.tree.toList) second) (le : first ≤ second) : ∃ firstChar secondChar,
    Point.toBufferCharOffset build content.tree first = some firstChar ∧
    Point.toBufferCharOffset build content.tree second = some secondChar ∧ firstChar ≤ secondChar := by
  obtain ⟨before, after, split, rfl⟩ := isFirst
  obtain ⟨others, rest, otherSplit, rfl⟩ := isSecond
  refine ⟨_, _, point_toBufferCharOffset_spec split, point_toBufferCharOffset_spec otherSplit, ?_⟩
  exact measures_lines.monotone measures_chars (fun _ => plain_of_mem) ⟨after, split.symm⟩ ⟨rest, otherSplit.symm⟩ le

end Exact

end Warp.Editor.Content
