import Warp.Editor.Content.Coordinates
import Warp.Lib.Utf8Lossy

namespace Warp.Editor.Content

open SumTree Str List

structure Bytes where
  cursor : Cursor BufferText BufferSummary ByteOffset ByteOffset
  start : ℕ
  stop : ℕ

namespace Bytes

variable (build : Build)

def fromSumTree (content : Node BufferText BufferSummary) (start stop : ℕ) : Option Bytes :=
  ((Cursor.new content : Cursor BufferText BufferSummary ByteOffset ByteOffset).seek build start .right).map
    fun (cursor, _) => ⟨cursor, start, stop⟩

def fragmentBytes (self : Bytes) (fragment : Str) (start stop : ℕ) : Option (List UInt8) :=
  let sliceStart := if start < self.start then self.start - start else 0
  let sliceEnd := if self.stop < stop then byteLen fragment - (stop - self.stop) else byteLen fragment
  if sliceStart ≤ sliceEnd ∧ sliceEnd ≤ byteLen fragment then some (((bytes fragment).drop sliceStart).take (sliceEnd - sliceStart))
  else none

/-- The next slice of bytes. There is no result with turns of the loop left to take. -/
def next : ℕ → Bytes → Option (Bytes × Option (List UInt8))
  | 0, _ => none
  | fuel + 1, self =>
    (self.cursor.item build).bind fun item =>
      match item with
      | none => some (self, none)
      | some item =>
        (self.cursor.endPosition build).bind fun (stop : ℕ) =>
          let start : ℕ := self.cursor.start
          if self.stop ≤ start then some (self, none)
          else
            (self.cursor.next build).bind fun cursor =>
              match item with
              | .blockMarker _ | .newline => some ({ self with cursor }, some [0x0A])
              | .text fragment _ => some ({ self with cursor }, self.fragmentBytes fragment start stop)
              | _ => next fuel { self with cursor }

def collect (turns : ℕ) : ℕ → Bytes → Option (List (List UInt8))
  | 0, _ => none
  | fuel + 1, self =>
    (next build turns self).bind fun (self, slice) =>
      match slice with
      | none => some []
      | some slice => (collect turns fuel self).map (slice :: ·)

end Bytes

def bytesInRange (build : Build) (content : Node BufferText BufferSummary) (start stop : ℕ) : Option (List (List UInt8)) :=
  (Bytes.fromSumTree build content start stop).bind (Bytes.collect build (content.toList.length + 1) (content.toList.length + 1))

def Symbol.bytes : Symbol → List UInt8
  | .char c => String.utf8EncodeChar c
  | .item .newline | .item (.blockMarker _) => [0x0A]
  | .item _ => []

/-- Block items and placeholders take up a byte, and none is read from them. -/
def Symbol.isHidden : Symbol → Bool
  | .item (.blockItem _) | .item (.placeholder _) => true
  | _ => false

def bytesOfSymbols (symbols : List Symbol) : List UInt8 := symbols.flatMap Symbol.bytes

theorem bytesOfSymbols_append (left right : List Symbol) :
    bytesOfSymbols (left ++ right) = bytesOfSymbols left ++ bytesOfSymbols right := flatMap_append

theorem bytesOfSymbols_chars (fragment : Str) : bytesOfSymbols (fragment.map .char) = Str.bytes fragment := by
  induction fragment with
  | nil => rfl
  | cons c fragment ih =>
    rw [map_cons, bytesOfSymbols, flatMap_cons, ← bytesOfSymbols, ih]
    rfl

theorem Symbol.Plain.length_bytes {symbol : Symbol} (plain : symbol.Plain) :
    symbol.bytes.length + (if symbol.isHidden then 1 else 0) = symbol.textSummary.bytes := by
  cases symbol with
  | char c => exact String.length_utf8EncodeChar c
  | item other =>
    cases other with
    | text fragment charCount => exact plain.elim
    | blockItem itemType => cases itemType <;> rfl
    | _ => rfl

variable {symbols : List Symbol}

theorem length_bytesOfSymbols (plain : ∀ symbol ∈ symbols, symbol.Plain) :
    (bytesOfSymbols symbols).length + symbols.countP Symbol.isHidden = (summaryOf symbols).bytes := by
  induction symbols with
  | nil => rfl
  | cons symbol symbols ih =>
    obtain ⟨first, rest⟩ := List.forall_mem_cons.mp plain
    have split : summaryOf (symbol :: symbols) = symbol.textSummary + summaryOf symbols := by simp [summaryOf]
    have length := first.length_bytes
    have lengths := ih rest
    rw [split, TextSummary.add_def, bytesOfSymbols, flatMap_cons, ← bytesOfSymbols, length_append, countP_cons]
    dsimp only
    omega

theorem bytesOfSymbols_eq_nil (plain : ∀ symbol ∈ symbols, symbol.Plain) (none : (summaryOf symbols).bytes = 0) :
    bytesOfSymbols symbols = [] := by
  have length := length_bytesOfSymbols plain
  exact List.length_eq_zero_iff.mp (by omega)

namespace Bytes

/-- The symbols of the range that are still ahead, and how many items are. -/
inductive Ahead (root : Node BufferText BufferSummary) : Bytes → List Symbol → ℕ → Prop
  | between {cursor before after ahead rest} {start stop : ℕ} (on : On root cursor before after) (passed : start ≤ bytesOf before)
    (split : symbolsOf after = ahead ++ rest) (isStop : stop = bytesOf before + (summaryOf ahead).bytes) :
    Ahead root ⟨cursor, start, stop⟩ ahead after.length
  | inside {cursor before first last charCount after ahead rest} {start stop : ℕ}
    (on : On root cursor before (.text (first ++ last) charCount :: after)) (some : first ≠ [])
    (isStart : start = bytesOf before + byteLen first)
    (split : last.map .char ++ symbolsOf after = ahead ++ rest) (isStop : stop = start + (summaryOf ahead).bytes) :
    Ahead root ⟨cursor, start, stop⟩ ahead (after.length + 1)
  | beyond {cursor before after} {start stop : ℕ} (on : On root cursor before after) (isStop : stop ≤ bytesOf before) :
    Ahead root ⟨cursor, start, stop⟩ [] after.length

variable {build : Build} {root : Node BufferText BufferSummary} {cursor : Cursor BufferText BufferSummary ByteOffset ByteOffset}
  {before after : List BufferText} {start stop fuel : ℕ}

theorem fragmentBytes_eq {self : Bytes} {first piece last : Str} {position : ℕ}
    (isStart : self.start = position + byteLen first ∨ first = [] ∧ self.start ≤ position)
    (isStop : self.stop = position + byteLen first + byteLen piece ∨ last = [] ∧ position + byteLen first + byteLen piece ≤ self.stop) :
    self.fragmentBytes (first ++ (piece ++ last)) position (position + byteLen (first ++ (piece ++ last))) = some (Str.bytes piece) := by
  have sliceStart : (if position < self.start then self.start - position else 0) = byteLen first := by
    rcases isStart with same | ⟨rfl, le⟩
    · split <;> omega
    · rw [if_neg (Nat.not_lt.mpr le)]
      rfl
  have sliceEnd : (if self.stop < position + (byteLen first + (byteLen piece + byteLen last)) then
      byteLen first + (byteLen piece + byteLen last) - (position + (byteLen first + (byteLen piece + byteLen last)) - self.stop)
      else byteLen first + (byteLen piece + byteLen last)) = byteLen first + byteLen piece := by
    rcases isStop with same | ⟨rfl, le⟩
    · split <;> omega
    · rw [byteLen_nil, if_neg (by omega)]
      rfl
  have within : byteLen first ≤ byteLen first + byteLen piece ∧
      byteLen first + byteLen piece ≤ byteLen first + (byteLen piece + byteLen last) := by omega
  simp only [fragmentBytes, byteLen_append, sliceStart, sliceEnd]
  rw [if_pos within, Nat.add_sub_cancel_left, bytes_append, bytes_append, drop_left' bytes_length, take_left' bytes_length]

section Calls

variable (rootWF : root.WF build) (low : root.height < stackCapacity)

include rootWF low

theorem next_cons {item : BufferText} (on : On root cursor before (item :: after)) : ∃ moved, On root moved (before ++ [item]) after ∧
    next build (fuel + 1) ⟨cursor, start, stop⟩ =
      if stop ≤ bytesOf before then some (⟨cursor, start, stop⟩, none)
      else
        match item with
        | .blockMarker _ | .newline => some (⟨moved, start, stop⟩, some [0x0A])
        | .text fragment _ => some (⟨moved, start, stop⟩,
            fragmentBytes ⟨cursor, start, stop⟩ fragment (bytesOf before) (bytesOf (before ++ [item])))
        | _ => next build fuel ⟨moved, start, stop⟩ := by
  obtain ⟨moved, moves, onMoved⟩ := on.next_spec rootWF low
  refine ⟨moved, by simpa using onMoved, ?_⟩
  have isStart : cursor.start = bytesOf before := by rw [on.start_eq, dimensionOf_byteOffset]
  have isEnd := on.endPosition_eq rootWF rfl
  rw [dimensionOf_byteOffset] at isEnd
  rw [next]
  dsimp only
  rw [on.item_eq rootWF, isEnd, moves, isStart]
  cases item <;> rfl

theorem next_done (on : On root cursor before after) (done : stop ≤ bytesOf before) :
    next build (fuel + 1) ⟨cursor, start, stop⟩ = some (⟨cursor, start, stop⟩, none) := by
  cases after with
  | nil =>
    rw [next, on.item_eq rootWF]
    rfl
  | cons item after =>
    obtain ⟨moved, -, ran⟩ := @next_cons build root cursor before after start stop fuel rootWF low _ on
    rw [ran, if_pos done]

theorem next_fragment {first last : Str} {charCount : ℕ} {ahead rest : List Symbol}
    (on : On root cursor before (.text (first ++ last) charCount :: after))
    (isStart : start = bytesOf before + byteLen first ∨ first = [] ∧ start ≤ bytesOf before)
    (split : last.map .char ++ symbolsOf after = ahead ++ rest)
    (isStop : stop = bytesOf before + byteLen first + (summaryOf ahead).bytes) (within : bytesOf before < stop) :
    ∃ self slice more left, next build (fuel + 1) ⟨cursor, start, stop⟩ = some (self, some slice) ∧
      bytesOfSymbols ahead = slice ++ bytesOfSymbols more ∧ left ≤ after.length ∧ Ahead root self more left := by
  obtain ⟨moved, onMoved, ran⟩ := @next_cons build root cursor before after start stop fuel rootWF low _ on
  rw [if_neg (Nat.not_le.mpr within)] at ran
  dsimp only at ran
  have stopAt : bytesOf (before ++ [.text (first ++ last) charCount]) = bytesOf before + byteLen (first ++ last) := by
    rw [bytesOf_append, bytesOf_singleton]
    rfl
  have startBefore : start ≤ bytesOf before + byteLen (first ++ last) := by
    rw [byteLen_append]
    omega
  rw [stopAt] at ran
  rcases List.append_eq_append_iff.mp split with ⟨more, isAhead, isRest⟩ | ⟨others, isLast, isRest⟩
  · -- the range goes on after the fragment
    rw [isAhead, summaryOf_append, summaryOf_chars, TextSummary.add_def] at isStop
    have slice := @fragmentBytes_eq ⟨cursor, start, stop⟩ first last [] _ isStart
      (.inr ⟨rfl, by dsimp only at isStop ⊢; omega⟩)
    rw [append_nil] at slice
    refine ⟨⟨moved, start, stop⟩, Str.bytes last, more, after.length, ?_, ?_, Nat.le_refl _, .between onMoved ?_ isRest ?_⟩
    · rw [ran, slice]
    · rw [isAhead, bytesOfSymbols_append, bytesOfSymbols_chars]
    · rw [stopAt]
      exact startBefore
    · rw [stopAt, byteLen_append, isStop]
      dsimp only
      omega
  · -- the range ends in the fragment
    obtain ⟨piece, tail, rfl, rfl, rfl⟩ := List.map_eq_append_iff.mp isLast
    rw [summaryOf_chars] at isStop
    have slice := @fragmentBytes_eq ⟨cursor, start, stop⟩ first piece tail _ isStart (.inl isStop)
    refine ⟨⟨moved, start, stop⟩, Str.bytes piece, [], after.length, ?_, ?_, Nat.le_refl _, .beyond onMoved ?_⟩
    · rw [ran, slice]
    · rw [bytesOfSymbols_chars]
      exact (append_nil _).symm
    · rw [stopAt, byteLen_append, byteLen_append, isStop]
      dsimp only
      omega

theorem next_spec {self : Bytes} {ahead : List Symbol} {left : ℕ} (place : Ahead root self ahead left) (turns : left < fuel) :
    (∃ final, next build fuel self = some (final, none) ∧ bytesOfSymbols ahead = []) ∨
      ∃ moved slice more others, next build fuel self = some (moved, some slice) ∧
        bytesOfSymbols ahead = slice ++ bytesOfSymbols more ∧ others < left ∧ Ahead root moved more others := by
  induction fuel generalizing self ahead left with
  | zero => omega
  | succ fuel ih =>
    cases place with
    | @between cursor before after ahead rest start stop on passed split isStop =>
      by_cases done : stop ≤ bytesOf before
      · have plain : ∀ symbol ∈ ahead, symbol.Plain := fun symbol member =>
          plain_of_mem (by rw [split]; exact mem_append_left _ member)
        have none : (summaryOf ahead).bytes = 0 := by omega
        exact .inl ⟨⟨cursor, start, stop⟩, next_done rootWF low on done, bytesOfSymbols_eq_nil plain none⟩
      · have within : bytesOf before < stop := Nat.not_le.mp done
        have some : ahead ≠ [] := by
          rintro rfl
          exact done isStop.le
        cases after with
        | nil => exact absurd (List.append_eq_nil_iff.mp split.symm).1 some
        | cons item after =>
          by_cases isText : ∃ fragment charCount, item = .text fragment charCount
          · obtain ⟨fragment, charCount, rfl⟩ := isText
            obtain ⟨moved, slice, more, left, ran, parts, le, place⟩ :=
              @next_fragment build root cursor before after start stop fuel rootWF low [] fragment charCount ahead rest on
                (.inr ⟨rfl, passed⟩) split isStop within
            exact .inr ⟨moved, slice, more, left, ran, parts, Nat.lt_succ_of_le le, place⟩
          · obtain ⟨moved, onMoved, ran⟩ := @next_cons build root cursor before after start stop fuel rootWF low _ on
            rw [if_neg done] at ran
            have single := (BufferText.symbols_other fun fragment charCount same => isText ⟨fragment, charCount, same⟩).1
            rw [symbolsOf_cons, single] at split
            obtain ⟨symbol, more, rfl⟩ := exists_cons_of_ne_nil some
            injection split with same split
            subst same
            have stopAt : bytesOf (before ++ [item]) = bytesOf before + item.textSummary.bytes := by
              rw [bytesOf_append, bytesOf_singleton]
            have sum : (summaryOf (.item item :: more)).bytes = item.textSummary.bytes + (summaryOf more).bytes := by
              rw [summaryOf, map_cons, sum_cons]
              rfl
            have place : Ahead root ⟨moved, start, stop⟩ more after.length := .between onMoved (by omega) split (by omega)
            have parts : bytesOfSymbols (.item item :: more) = (Symbol.item item).bytes ++ bytesOfSymbols more := flatMap_cons
            cases item with
            | text fragment charCount => exact absurd ⟨fragment, charCount, rfl⟩ isText
            | newline | blockMarker _ =>
              exact .inr ⟨⟨moved, start, stop⟩, [0x0A], more, after.length, ran, parts, Nat.lt_succ_self _, place⟩
            | _ =>
              rw [ran]
              rcases ih place (Nat.lt_of_succ_lt_succ turns) with
                ⟨last, ranOn, none⟩ | ⟨last, slice, others, left, ranOn, isSlice, lt, placeOn⟩
              · exact .inl ⟨last, ranOn, parts.trans none⟩
              · exact .inr ⟨last, slice, others, left, ranOn, parts.trans isSlice, Nat.lt_succ_of_lt lt, placeOn⟩
    | @inside cursor before first last charCount after ahead rest start stop on some isStart split isStop =>
      have pos : byteLen first ≠ 0 := fun none => some (byteLen_eq_zero_iff.mp none)
      obtain ⟨moved, slice, more, left, ran, parts, le, place⟩ :=
        @next_fragment build root cursor before after start stop fuel rootWF low first last charCount ahead rest on
          (.inl isStart) split (by rw [isStop, isStart]) (by omega)
      exact .inr ⟨moved, slice, more, left, ran, parts, Nat.lt_succ_of_le le, place⟩
    | @beyond cursor before after start stop on isStop =>
      exact .inl ⟨⟨cursor, start, stop⟩, next_done rootWF low on isStop, rfl⟩

theorem collect_spec {turns : ℕ} {self : Bytes} {ahead : List Symbol} {left : ℕ} (place : Ahead root self ahead left)
    (enough : left < turns) (fuelEnough : left < fuel) :
    ∃ slices, collect build turns fuel self = some slices ∧ slices.flatten = bytesOfSymbols ahead := by
  induction fuel generalizing self ahead left with
  | zero => omega
  | succ fuel ih =>
    rw [collect]
    rcases next_spec rootWF low place enough with ⟨last, ran, none⟩ | ⟨moved, slice, more, others, ran, parts, lt, placeOn⟩
    · refine ⟨[], ?_, none.symm⟩
      rw [ran]
      rfl
    · obtain ⟨slices, ranOn, flat⟩ := ih placeOn (by omega) (by omega)
      refine ⟨slice :: slices, ?_, ?_⟩
      · simp [ran, ranOn]
      · rw [flatten_cons, flat, parts]

end Calls

end Bytes

section Exact

variable {build : Build} (content : BufferContent build)

theorem bytesInRange_spec {before ahead after : List Symbol} (split : symbolsOf content.tree.toList = before ++ ahead ++ after) :
    ∃ slices, bytesInRange build content.tree (summaryOf before).bytes (summaryOf (before ++ ahead)).bytes = some slices ∧
      slices.flatten = bytesOfSymbols ahead := by
  obtain ⟨cursor, found, passed, rest, ran, on, passes⟩ := seek_spec (U := ByteOffset) content.wf content.low
    (byteOffset_monotone content.tree.toList) .fresh ((summaryOf before).bytes : ByteOffset) .right fun _ => Nat.zero_le _
  rw [append_assoc] at split
  have wellFormed := content.wellFormed
  rw [on.parts] at split wellFormed
  have place : ∃ actual left, left ≤ rest.length ∧ bytesOfSymbols actual = bytesOfSymbols ahead ∧
      Bytes.Ahead content.tree ⟨cursor, (summaryOf before).bytes, (summaryOf (before ++ ahead)).bytes⟩ actual left := by
    have passedBytes : (summaryOf (symbolsOf passed)).bytes = bytesOf passed := by
      rw [summaryOf_symbolsOf (List.forall_mem_append.mp wellFormed).1]
      rfl
    rcases measures_bytes.place wellFormed split passes with
      ⟨more, isPassed, none⟩ | ⟨fragment, charCount, more, index, rfl, pos, lt, isBefore⟩
    · have plain : ∀ symbol ∈ more, symbol.Plain := fun symbol member =>
        plain_of_mem (by rw [isPassed]; exact mem_append_right _ member)
      rw [isPassed, summaryOf_append, none, add_zero] at passedBytes
      rw [symbolsOf_append, isPassed, append_assoc, append_cancel_left_eq] at split
      rcases List.append_eq_append_iff.mp split with ⟨others, rfl, isRest⟩ | ⟨others, rfl, isRest⟩
      · refine ⟨others, rest.length, Nat.le_refl _, ?_, .between on passedBytes.le isRest ?_⟩
        · rw [bytesOfSymbols_append, bytesOfSymbols_eq_nil plain (by rw [none]; rfl), nil_append]
        · rw [summaryOf_append, summaryOf_append, none, zero_add, TextSummary.add_def, passedBytes]
      · rw [summaryOf_append, TextSummary.add_def] at none
        have noBytes : (summaryOf ahead).bytes = 0 := by
          have sum := congrArg TextSummary.bytes none
          change (summaryOf ahead).bytes + (summaryOf others).bytes = 0 at sum
          omega
        rw [forall_mem_append] at plain
        refine ⟨[], rest.length, Nat.le_refl _, (bytesOfSymbols_eq_nil plain.1 noBytes).symm, .beyond on ?_⟩
        rw [summaryOf_append, TextSummary.add_def, noBytes, passedBytes]
        exact Nat.le_refl _
    · have nonempty : fragment.take index ≠ [] := by
        rw [ne_eq, take_eq_nil_iff]
        rintro (zero | empty)
        · omega
        · rw [empty] at lt
          exact absurd lt (Nat.not_lt_zero _)
      have whole : BufferText.text fragment charCount = .text (fragment.take index ++ fragment.drop index) charCount := by
        rw [take_append_drop]
      refine ⟨ahead, more.length + 1, Nat.le_refl _, rfl, ?_⟩
      rw [whole] at on split
      rw [symbolsOf_append, symbolsOf_cons, isBefore, append_assoc, append_cancel_left_eq, BufferText.symbols_text,
        map_append, append_assoc, append_cancel_left_eq] at split
      refine .inside on nonempty ?_ split ?_
      · rw [isBefore, summaryOf_append, summaryOf_chars, TextSummary.add_def, passedBytes]
      · rw [summaryOf_append]
        rfl
  obtain ⟨actual, left, le, same, place⟩ := place
  have few : left < content.tree.toList.length + 1 := by
    rw [on.parts, length_append]
    omega
  obtain ⟨slices, collected, flat⟩ := Bytes.collect_spec content.wf content.low place few few
  refine ⟨slices, ?_, flat.trans same⟩
  rw [bytesInRange, Bytes.fromSumTree, ran]
  exact collected

end Exact

def hintedItems : List BufferText := [.text ['a', 'é'] 2, .placeholder [], .newline, .text ['d'] 1]

def hinted : BufferContent release := .ofItems release hintedItems (by decide) (by
  simp only [hintedItems, forall_mem_cons, BufferText.WellFormed, not_mem_nil, false_implies, implies_true]
  decide)

end Warp.Editor.Content
