import Warp.Grid.AttributeRun
import Warp.Grid.StorageRun

namespace Warp.Grid

open List Option

universe u

section Iteration

variable {A : Type u} {iter : Iter A} {map : AttributeMap A}

def Iter.Yields (iter : Iter A) (map : AttributeMap A) : Prop :=
  iter.tailValue = map.tailValue ∧ ∀ offset, iter.curOffset ≤ offset →
    ((iter.curRange :: iter.inner).find? fun range => offset ≤ range.1).elim map.tailValue Prod.snd = map.value offset

theorem Iter.yields_new (map : AttributeMap A) (startOffset : ℕ) : (map.iterFrom startOffset).Yields map := by
  refine ⟨rfl, ?_⟩
  intro offset start
  have start : startOffset ≤ offset := start
  have sameRange : ((map.map.splitOff startOffset).2.entries.find? fun range => offset ≤ range.1) =
      map.map.ceiling offset := by
    simp only [OrderedMap.splitOff, OrderedMap.ceiling, List.find?_filter]
    congr 1
    funext range
    by_cases inside : offset ≤ range.1
    · simp [inside, Nat.le_trans start inside]
    · simp [inside]
  rw [AttributeMap.value, ← sameRange]
  simp only [AttributeMap.iterFrom, Iter.new]
  cases (map.map.splitOff startOffset).2.entries with
  | nil => by_cases inside : offset ≤ usizeMax <;> simp [Iter.nextRange, inside]
  | cons range inner => rfl

theorem Iter.seekRange_find (tail : A) (offset : ℕ) (curRange : ℕ × A) (inner : List (ℕ × A)) :
    let (found, rest) := Iter.seekRange tail offset curRange inner
    found.2 = ((curRange :: inner).find? fun range => offset ≤ range.1).elim tail Prod.snd ∧
      ∀ later, offset ≤ later → ((found :: rest).find? fun range => later ≤ range.1).elim tail Prod.snd =
        ((curRange :: inner).find? fun range => later ≤ range.1).elim tail Prod.snd := by
  induction inner generalizing curRange with
  | nil =>
    by_cases past : offset > curRange.1
    · have notInside : ¬ offset ≤ curRange.1 := by omega
      simp only [Iter.seekRange, past, ↓reduceIte, List.find?_cons, notInside, decide_false, List.find?_nil,
        elim_none, true_and]
      intro later start
      have notLater : ¬ later ≤ curRange.1 := by omega
      by_cases inside : later ≤ usizeMax <;> simp [inside, notLater]
    · have inside : offset ≤ curRange.1 := by omega
      simp [Iter.seekRange, past, inside]
  | cons range inner ih =>
    by_cases past : offset > curRange.1
    · have notInside : ¬ offset ≤ curRange.1 := by omega
      obtain ⟨found, rest⟩ := ih range
      rw [Iter.seekRange, if_pos past]
      refine ⟨by simpa [notInside] using found, ?_⟩
      intro later start
      have notLater : ¬ later ≤ curRange.1 := by omega
      simpa [notLater] using rest later start
    · have inside : offset ≤ curRange.1 := by omega
      simp [Iter.seekRange, past, inside]

theorem Iter.Yields.nth (yields : iter.Yields map) (n : ℕ) :
    (iter.nth n).1 = map.value (iter.curOffset + n) ∧ (iter.nth n).2.Yields map := by
  obtain ⟨sameTail, ranges⟩ := yields
  obtain ⟨found, rest⟩ := Iter.seekRange_find iter.tailValue (iter.curOffset + n) iter.curRange iter.inner
  refine ⟨?_, sameTail, ?_⟩
  · apply found.trans
    rw [sameTail]
    exact ranges _ (Nat.le_add_right _ _)
  · intro offset start
    have start : iter.curOffset + n + 1 ≤ offset := start
    have same := rest offset (by omega)
    apply Eq.trans _ (ranges offset (by omega))
    rw [← sameTail]
    exact same

end Iteration

namespace CharOrStr

theorem bytes_eq (content : CharOrStr) : content.bytes = content.chars.flatMap String.utf8EncodeChar := by
  cases content with
  | char c => simp [bytes, chars]
  | str s => rfl

theorem fromUTF8_bytes (content : CharOrStr) :
    String.fromUTF8? ⟨content.bytes.toArray⟩ = some (String.ofList content.chars) := by
  have encoded : (⟨content.bytes.toArray⟩ : ByteArray) = (String.ofList content.chars).toByteArray := by
    rw [bytes_eq, String.toByteArray_ofList]
    unfold List.utf8Encode
    ext1
    simp
  unfold String.fromUTF8?
  rw [encoded, dif_pos (String.ofList content.chars).isValidUTF8]
  rfl

end CharOrStr

namespace Grapheme

def chars (self : Grapheme) : List Char := self.content.chars

theorem startsNewRow_iff (grapheme : Grapheme) : grapheme.startsNewRow = true ↔ grapheme.chars = ['\n'] := by
  unfold startsNewRow chars
  cases grapheme.content with
  | char c => simp [CharOrStr.chars]
  | str s =>
    simp only [beq_iff_eq, CharOrStr.chars]
    constructor
    · rintro rfl
      decide
    · intro chars
      rw [← @String.ofList_toList s, chars]

theorem Sized.chars_ne_nil {grapheme : Grapheme} (sized : grapheme.Sized) : grapheme.chars ≠ [] := by
  intro nothing
  have length : grapheme.bytes.length = grapheme.len := sized
  have positive := grapheme.info.utf8Bytes.pos
  unfold bytes at length
  unfold chars at nothing
  rw [CharOrStr.bytes_eq, nothing] at length
  simp only [flatMap_nil, length_nil] at length
  unfold len at length
  omega

end Grapheme

def cellWidths (graphemes : List Grapheme) : ℕ := (graphemes.map fun grapheme => grapheme.info.cellWidth).sum

namespace FlatStorage

def readCell (storage : FlatStorage) (offset : ℕ) (grapheme : Grapheme) : Cell :=
  Filling.fillCell storage offset (grapheme.chars.head?.getD Cell.defaultChar) grapheme.chars.tail
    (storage.fgColorMap.value (offset + (grapheme.len - 1)))
    (storage.bgAndStyleMap.value (offset + (grapheme.len - 1))) .default

def cellsOf (storage : FlatStorage) (offset : ℕ) (grapheme : Grapheme) : List Cell :=
  if grapheme.info.cellWidth = 2 then
    [Filling.insertFlags .wideChar (storage.readCell offset grapheme), Filling.insertFlags .wideCharSpacer .default]
  else [storage.readCell offset grapheme]

/-- The cells of a row, up to a grapheme that is a newline. -/
def readCells (storage : FlatStorage) : ℕ → List Grapheme → List Cell
  | _, [] => []
  | offset, grapheme :: graphemes =>
    if grapheme.startsNewRow then []
    else storage.cellsOf offset grapheme ++ readCells storage (offset + grapheme.len) graphemes

theorem length_readCells_le (storage : FlatStorage) (graphemes : List Grapheme)
    (fromCells : ∀ grapheme ∈ graphemes, grapheme.FromCell) (offset : ℕ) :
    (storage.readCells offset graphemes).length ≤ cellWidths graphemes := by
  induction graphemes generalizing offset with
  | nil => exact le_refl 0
  | cons grapheme graphemes ih =>
    have wide := (fromCells grapheme mem_cons_self).wide
    have rest := ih (fun later member => fromCells later (mem_cons_of_mem _ member)) (offset + grapheme.len)
    have widths : cellWidths (grapheme :: graphemes) = grapheme.info.cellWidth + cellWidths graphemes := by simp [cellWidths]
    rw [widths]
    unfold readCells
    split
    · exact Nat.zero_le _
    · rw [length_append]
      unfold cellsOf
      split
      · simp only [length_cons, length_nil]
        omega
      · simp only [length_cons, length_nil]
        omega

end FlatStorage

section Fill

variable {debugAssertions : Bool} {storage : FlatStorage}

theorem Row.update_default {before : List Cell} {room index : ℕ} (atEnd : index = before.length) (change : Cell → Cell)
    (free : 0 < room) :
    Row.update ⟨before ++ List.replicate room .default, index⟩ index change =
      some ⟨before ++ [change .default] ++ List.replicate (room - 1) .default, index + 1⟩ := by
  obtain ⟨room, rfl⟩ := Nat.exists_eq_succ_of_ne_zero (Nat.ne_of_gt free)
  subst atEnd
  unfold Row.update
  simp [replicate_succ]

theorem Row.update_last {before after : List Cell} {cell : Cell} {index : ℕ} (atLast : index = before.length)
    (change : Cell → Cell) :
    Row.update ⟨before ++ [cell] ++ after, index + 1⟩ index change =
      some ⟨before ++ [change cell] ++ after, index + 1⟩ := by
  subst atLast
  unfold Row.update
  simp

theorem Filling.fill_spec (graphemes : List Grapheme) {start : ℕ} (covers : storage.content.Covers start)
    (fromCells : ∀ grapheme ∈ graphemes, grapheme.FromCell) {filling : Filling} {before : List Cell} {room : ℕ}
    (holds : storage.content.HoldsAll filling.currentOffset graphemes)
    (fgYields : filling.fgColorIter.Yields storage.fgColorMap)
    (fgOffset : filling.fgColorIter.curOffset = filling.currentOffset)
    (styleYields : filling.bgAndStyleIter.Yields storage.bgAndStyleMap)
    (styleOffset : filling.bgAndStyleIter.curOffset = filling.currentOffset)
    (row : filling.row = ⟨before ++ List.replicate room .default, before.length⟩)
    (fits : (storage.readCells filling.currentOffset graphemes).length ≤ room) :
    ∃ final, Filling.fill debugAssertions storage (graphemes.map Grapheme.info) filling = some final ∧
      final.row = ⟨before ++ storage.readCells filling.currentOffset graphemes ++
        List.replicate (room - (storage.readCells filling.currentOffset graphemes).length) .default,
        (before ++ storage.readCells filling.currentOffset graphemes).length⟩ := by
  induction graphemes generalizing filling before room with
  | nil =>
    refine ⟨filling, rfl, ?_⟩
    rw [row]
    simp [FlatStorage.readCells]
  | cons grapheme graphemes ih =>
    obtain ⟨holdsFirst, holdsRest⟩ := holds
    have fromCell := fromCells grapheme mem_cons_self
    have length : grapheme.bytes.length = grapheme.len := fromCell.sized
    have sliced := Content.slice_eq debugAssertions covers holdsFirst
    rw [length] at sliced
    have decoded := grapheme.content.fromUTF8_bytes
    obtain ⟨c, rest, chars⟩ := exists_cons_of_ne_nil fromCell.sized.chars_ne_nil
    have positive := grapheme.info.utf8Bytes.pos
    have sameStart : (⟨grapheme.info, .str (String.ofList grapheme.chars)⟩ : Grapheme).startsNewRow =
        grapheme.startsNewRow := by
      rw [Bool.eq_iff_iff, Grapheme.startsNewRow_iff, Grapheme.startsNewRow_iff]
      simp [Grapheme.chars, CharOrStr.chars]
    rw [map_cons]
    unfold Filling.fill
    rw [show grapheme.info.utf8Bytes.get = grapheme.len from rfl, sliced]
    simp only [bind_eq_bind, bind_some]
    rw [show grapheme.bytes = grapheme.content.bytes from rfl, decoded]
    simp only [bind_some]
    rw [show grapheme.content.chars = grapheme.chars from rfl, sameStart]
    by_cases newline : grapheme.startsNewRow = true
    · rw [if_pos newline]
      refine ⟨filling, rfl, ?_⟩
      rw [row]
      simp [FlatStorage.readCells, newline]
    · have lenEq : (⟨grapheme.info, .str (String.ofList grapheme.chars)⟩ : Grapheme).len = grapheme.len := rfl
      have fgRead := fgYields.nth (grapheme.len - 1)
      have styleRead := styleYields.nth (grapheme.len - 1)
      rw [fgOffset] at fgRead
      rw [styleOffset] at styleRead
      have fgNext : (filling.fgColorIter.nth (grapheme.len - 1)).2.curOffset = filling.currentOffset + grapheme.len := by
        show filling.fgColorIter.curOffset + (grapheme.len - 1) + 1 = _
        unfold Grapheme.len
        omega
      have styleNext : (filling.bgAndStyleIter.nth (grapheme.len - 1)).2.curOffset =
          filling.currentOffset + grapheme.len := by
        show filling.bgAndStyleIter.curOffset + (grapheme.len - 1) + 1 = _
        unfold Grapheme.len
        omega
      have read : storage.readCell filling.currentOffset grapheme = fillCell storage filling.currentOffset c rest
          (storage.fgColorMap.value (filling.currentOffset + (grapheme.len - 1)))
          (storage.bgAndStyleMap.value (filling.currentOffset + (grapheme.len - 1))) .default := by
        unfold FlatStorage.readCell
        rw [chars]
        rfl
      have cells : storage.readCells filling.currentOffset (grapheme :: graphemes) =
          storage.cellsOf filling.currentOffset grapheme ++
            storage.readCells (filling.currentOffset + grapheme.len) graphemes := by
        rw [FlatStorage.readCells, if_neg newline]
      have wide := fromCell.wide
      rw [cells, length_append] at fits
      rw [if_neg newline, if_neg (by omega), lenEq, String.toList_ofList, chars, List.head?_cons, bind_some,
        tail_cons, fgRead.1, styleRead.1, row]
      dsimp only
      have laterFromCells := fun later member => fromCells later (mem_cons_of_mem _ member)
      by_cases double : grapheme.info.cellWidth = 2
      · have own : storage.cellsOf filling.currentOffset grapheme = [insertFlags .wideChar
            (storage.readCell filling.currentOffset grapheme), insertFlags .wideCharSpacer .default] := if_pos double
        rw [own, length_cons, length_cons, length_nil] at fits
        have atSpacer : before.length + 1 =
            (before ++ [insertFlags .wideChar (storage.readCell filling.currentOffset grapheme)]).length := by simp
        rw [Row.update_default rfl _ (by omega), ← read, bind_some, if_pos double, Row.update_last rfl,
          bind_some, Row.update_default atSpacer _ (by omega), bind_some]
        obtain ⟨final, filled, finalRow⟩ := @ih laterFromCells ⟨⟨before ++
          [insertFlags .wideChar (storage.readCell filling.currentOffset grapheme)] ++
            [insertFlags .wideCharSpacer .default] ++ List.replicate (room - 1 - 1) .default,
          before.length + 1 + 1⟩, filling.currentOffset + grapheme.len, (filling.fgColorIter.nth (grapheme.len - 1)).2,
          (filling.bgAndStyleIter.nth (grapheme.len - 1)).2⟩
          (before ++ [insertFlags .wideChar (storage.readCell filling.currentOffset grapheme)] ++
            [insertFlags .wideCharSpacer .default])
          (room - 1 - 1) holdsRest fgRead.2 fgNext styleRead.2 styleNext (by simp) (by dsimp only; omega)
        refine ⟨final, filled, ?_⟩
        rw [finalRow, cells, own]
        simp [Nat.sub_sub, Nat.add_comm]
        omega
      · have own : storage.cellsOf filling.currentOffset grapheme = [storage.readCell filling.currentOffset grapheme] :=
          if_neg double
        rw [own, length_cons, length_nil] at fits
        rw [Row.update_default rfl _ (by omega), ← read, bind_some, if_neg double]
        obtain ⟨final, filled, finalRow⟩ := @ih laterFromCells ⟨⟨before ++
          [storage.readCell filling.currentOffset grapheme] ++ List.replicate (room - 1) .default,
          before.length + 1⟩, filling.currentOffset + grapheme.len, (filling.fgColorIter.nth (grapheme.len - 1)).2,
          (filling.bgAndStyleIter.nth (grapheme.len - 1)).2⟩
          (before ++ [storage.readCell filling.currentOffset grapheme]) (room - 1)
          holdsRest fgRead.2 fgNext styleRead.2 styleNext (by simp) (by dsimp only; omega)
        refine ⟨final, filled, ?_⟩
        rw [finalRow, cells, own]
        simp [Nat.sub_sub, Nat.add_comm]

end Fill

section Next

variable {debugAssertions : Bool} {storage : FlatStorage} {start : ℕ} {rows : List TextRow}

/-- Resetting the row leaves nothing in it but default cells. -/
structure Row.Resets (columns : ℕ) (row : Row) : Prop where
  width : row.inner.length = columns
  occ : row.occ ≤ columns
  rest : row.inner.drop row.occ = List.replicate (columns - row.occ) .default

variable {row : Row}

theorem Row.Resets.reset {columns : ℕ} (resets : row.Resets columns) (positive : 0 < columns) :
    row.reset .default = some ⟨List.replicate columns .default, 0⟩ := by
  obtain ⟨width, occ, rest⟩ := resets
  obtain ⟨last, lastEq⟩ : ∃ last, row.inner.getLast? = some last :=
    ⟨_, List.getLast?_eq_getLast_of_ne_nil (ne_nil_of_length_pos (by omega))⟩
  unfold Row.reset
  rw [lastEq]
  simp only [bind_eq_bind, bind_some, width]
  by_cases other : last.bg ≠ Cell.default.bg
  · rw [if_pos other, if_pos (le_refl _), drop_of_length_le (le_of_eq width), append_nil]
    rfl
  · rw [if_neg other, if_pos occ, rest]
    show some (Row.mk (List.replicate row.occ .default ++ List.replicate (columns - row.occ) .default) 0) = _
    rw [← replicate_add, Nat.add_sub_cancel' occ]

theorem Row.resets_of_occ {columns : ℕ} (width : row.inner.length = columns) (occ : row.occ = columns) :
    row.Resets columns := by
  refine ⟨width, le_of_eq occ, ?_⟩
  rw [occ, drop_of_length_le (le_of_eq width), Nat.sub_self]
  rfl

def markLast (flags : Flags) (cells : List Cell) : List Cell :=
  cells.dropLast ++ (cells.getLast?.map (Filling.insertFlags flags)).toList

theorem length_markLast (flags : Flags) (cells : List Cell) : (markLast flags cells).length = cells.length := by
  unfold markLast
  cases lastEq : cells.getLast? with
  | none =>
    rw [List.getLast?_eq_none_iff.mp lastEq]
    rfl
  | some last =>
    have nonempty : cells ≠ [] := by
      rintro rfl
      cases lastEq
    have positive := length_pos_of_ne_nil nonempty
    simp only [map_some, toList_some, length_append, length_dropLast, length_singleton]
    omega

theorem Row.updateLast_markLast (flags : Flags) (nonempty : row.inner ≠ []) :
    row.updateLast (Filling.insertFlags flags) = some ⟨markLast flags row.inner, row.inner.length⟩ := by
  unfold Row.updateLast markLast
  rw [List.getLast?_eq_getLast_of_ne_nil nonempty]
  rfl

def FlatStorage.readRow (storage : FlatStorage) (row : TextRow) (entry : Entry) : List Cell :=
  let cells := storage.readCells entry.contentOffset row.graphemes
  let cells := cells ++ List.replicate (storage.columns - cells.length) .default
  let cells := if row.newline then cells else markLast .wrapline cells
  if entry.endsWithLeadingWideCharSpacer then markLast .leadingWideCharSpacer cells else cells

theorem RowIterator.next_spec (represents : storage.Represents start rows) (positive : 0 < storage.columns)
    {iterator : RowIterator} (sameStorage : iterator.storage = storage) (template : iterator.template = .default)
    (resets : iterator.row.Resets storage.columns) {textRow : TextRow} {entry : Entry}
    (atRow : rows[iterator.rowIndex]? = some textRow) (atEntry : storage.index.getEntry iterator.rowIndex = some entry)
    (fits : cellWidths textRow.graphemes ≤ storage.columns) :
    ∃ row, iterator.next debugAssertions =
        some (some (row, { iterator with rowIndex := iterator.rowIndex + 1, row })) ∧
      row.inner = storage.readRow textRow entry ∧ row.Resets storage.columns := by
  obtain ⟨inside, rowEq⟩ := List.getElem?_eq_some_iff.mp atRow
  obtain ⟨offset, newline, -⟩ := represents.index.getElem atEntry atRow
  have range : storage.index.contentRangeForRow iterator.rowIndex =
      some (entry.contentOffset, (storage.index.contentOffsetForRow (iterator.rowIndex + 1)).getD storage.index.contentLen) := by
    unfold Index.contentRangeForRow
    rw [Index.contentOffsetForRow_eq represents.index, if_pos inside, offset]
    rfl
  have fromCells := represents.fromCells textRow (mem_of_getElem? atRow)
  have cellsFit := Nat.le_trans (storage.length_readCells_le textRow.graphemes fromCells entry.contentOffset) fits
  have holds : storage.content.HoldsAll entry.contentOffset textRow.graphemes := by
    have all := represents.content.holds
    have parts : rows = rows.take iterator.rowIndex ++ textRow :: rows.drop (iterator.rowIndex + 1) := by
      rw [← rowEq, ← drop_eq_getElem_cons inside, take_append_drop]
    rw [parts, written_append, written_cons, TextRow.written, Content.HoldsAll.append, append_assoc,
      Content.HoldsAll.append, ← offset] at all
    exact all.2.1
  obtain ⟨filling, filled, row⟩ := @Filling.fill_spec debugAssertions storage textRow.graphemes start
    represents.content.covers fromCells
    ⟨⟨List.replicate storage.columns .default, 0⟩, entry.contentOffset, storage.fgColorMap.iterFrom entry.contentOffset,
      storage.bgAndStyleMap.iterFrom entry.contentOffset⟩ [] storage.columns holds (Iter.yields_new _ _) rfl
    (Iter.yields_new _ _) rfl rfl cellsFit
  dsimp only at row
  rw [nil_append] at row
  unfold RowIterator.next
  rw [sameStorage, range, template]
  dsimp only
  rw [resets.reset positive, Index.graphemeInfosForRow_eq represents.index atRow]
  simp only [bind_eq_bind, bind_some]
  rw [filled, atEntry, bind_some, bind_some, row, newline]
  unfold FlatStorage.readRow
  generalize storage.readCells entry.contentOffset textRow.graphemes = cells at cellsFit ⊢
  have length : (cells ++ List.replicate (storage.columns - cells.length) Cell.default).length = storage.columns := by
    rw [length_append, length_replicate]
    omega
  have nonempty (marked : List Cell) (sameLength : marked.length = storage.columns) : marked ≠ [] :=
    ne_nil_of_length_pos (by omega)
  have wrapped := (length_markLast .wrapline _).trans length
  dsimp only
  cases textRow.newline with
  | true =>
    rw [if_pos rfl, if_pos rfl]
    cases entry.endsWithLeadingWideCharSpacer with
    | true =>
      rw [if_pos rfl, if_pos rfl, Row.updateLast_markLast _ (nonempty _ length)]
      exact ⟨_, rfl, rfl, Row.resets_of_occ ((length_markLast _ _).trans length) length⟩
    | false => exact ⟨_, rfl, rfl, length, cellsFit, drop_left⟩
  | false =>
    rw [if_neg Bool.false_ne_true, if_neg Bool.false_ne_true, Row.updateLast_markLast _ (nonempty _ length)]
    cases entry.endsWithLeadingWideCharSpacer with
    | true =>
      rw [if_pos rfl, bind_some, if_pos rfl, Row.updateLast_markLast _ (nonempty _ wrapped)]
      exact ⟨_, rfl, rfl, Row.resets_of_occ ((length_markLast _ _).trans wrapped) wrapped⟩
    | false => exact ⟨_, rfl, rfl, Row.resets_of_occ wrapped length⟩

end Next

end Warp.Grid
