import Warp.Chunker.Coverage

namespace Warp.Chunker.Naive

open Str List

structure LineSpan where
  start : ℕ
  stop : ℕ
deriving DecidableEq

section Chunks

variable {α : Type}

def chunks (size : ℕ) (items : List α) : List (List α) :=
  if items = [] ∨ size = 0 then [] else items.take size :: chunks size (items.drop size)
termination_by items.length
decreasing_by
  rename_i some
  have := List.length_pos_iff.mpr (not_or.mp some).1
  have := (not_or.mp some).2
  rw [length_drop]
  omega

end Chunks

def floorBoundary (code : Str) (low : ℕ) : ℕ → ℕ
  | 0 => 0
  | stop + 1 => if low < stop + 1 ∧ ¬ IsBoundary code (stop + 1) then floorBoundary code low stop else stop + 1

def ceilBoundary (code : Str) (stop : ℕ) : ℕ → ℕ
  | 0 => stop
  | left + 1 => if ¬ IsBoundary code stop then ceilBoundary code (stop + 1) left else stop

section Chunk

variable (fuel : ℕ) (code : Str) (path : Path) (maxBytesPerChunk numLinesPerChunk : ℕ)

def chunkEnd (currentStart lineEnd : ℕ) : ℕ :=
  let chunkSize := min (lineEnd - currentStart) maxBytesPerChunk
  let stop := floorBoundary code currentStart (currentStart + chunkSize)
  if stop ≤ currentStart then
    ceilBoundary code (currentStart + chunkSize) (lineEnd - (currentStart + chunkSize))
  else stop

/-- The loop over the bytes of a line, which has no result with turns left to take. -/
def splitLine (lineNumber lineEnd : ℕ) : ℕ → ℕ → Option (List Fragment)
  | 0, _ => none
  | fuel + 1, currentStart =>
    if currentStart < lineEnd then
      (byteSlice code currentStart (chunkEnd code maxBytesPerChunk currentStart lineEnd)).bind fun content =>
        (splitLine lineNumber lineEnd fuel (chunkEnd code maxBytesPerChunk currentStart lineEnd)).map fun fragments =>
          ⟨content, lineNumber, lineNumber, currentStart, chunkEnd code maxBytesPerChunk currentStart lineEnd, path⟩ ::
            fragments
    else some []

def chunkLineByBytes (line : LineSpan × ℕ) : Option (List Fragment) :=
  (byteSlice code line.1.start line.1.stop).bind fun lineContent =>
    if line.1.stop - line.1.start ≤ maxBytesPerChunk then
      some [⟨lineContent, line.2, line.2, line.1.start, line.1.stop, path⟩]
    else splitLine code path maxBytesPerChunk line.2 line.1.stop fuel line.1.start

def chunkLines (chunk : List (LineSpan × ℕ)) : Option (List Fragment) :=
  chunk.head?.bind fun (startRange, startLine) => chunk.getLast?.bind fun (endRange, endLine) =>
    if maxBytesPerChunk < endRange.stop - startRange.start then
      (chunk.mapM (chunkLineByBytes fuel code path maxBytesPerChunk)).bind fun fragments =>
        (coalesceFragments fragments.flatten code maxBytesPerChunk).toOption
    else
      (byteSlice code startRange.start endRange.stop).map fun content =>
        [⟨content, startLine, endLine, startRange.start, endRange.stop, path⟩]

/-- No result where it panics, or does not end within so many turns of the loop over a line. -/
def chunkCode (lineSpans : Str → List LineSpan) : Option (List Fragment) :=
  if numLinesPerChunk = 0 then none
  else
    ((chunks numLinesPerChunk (lineSpans code).zipIdx).mapM (chunkLines fuel code path maxBytesPerChunk)).map List.flatten

end Chunk

/-- The lines of a text from some position on, which line feeds end, with or without a carriage return. A line feed at the end
may have an empty line after it or not. -/
inductive LineSpans : ℕ → Str → List LineSpan → Prop where
  | nil {start} : LineSpans start [] []
  | last {start line} : '\n' ∉ line → LineSpans start line [⟨start, start + byteLen line⟩]
  | terminated {start line terminator rest spans} : '\n' ∉ line →
      (terminator = ['\n'] ∧ line.getLast? ≠ some '\r' ∨ terminator = ['\r', '\n']) →
      LineSpans (start + byteLen line + byteLen terminator) rest spans →
      LineSpans start (line ++ terminator ++ rest) (⟨start, start + byteLen line⟩ :: spans)

/-- A byte of a line feed, or of the carriage return before one. -/
def IsTerminator (code : Str) (byte : ℕ) : Prop :=
  ∃ before terminator after, code = before ++ terminator ++ after ∧ (terminator = ['\n'] ∨ terminator = ['\r', '\n']) ∧
    byteLen before ≤ byte ∧ byte < byteLen before + byteLen terminator

section Boundaries

variable {code : Str} {low stop : ℕ}

theorem exists_boundary (atStart : IsBoundary code low) (inText : low < byteLen code) :
    ∃ next, low < next ∧ next ≤ low + 4 ∧ IsBoundary code next := by
  obtain ⟨before, after, rfl, rfl⟩ := atStart
  cases after with
  | nil => simp at inText
  | cons c after =>
    have positive := c.utf8Size_pos
    have short := c.utf8Size_le_four
    exact ⟨byteLen before + c.utf8Size, by omega, by omega, before ++ [c], after, by simp, by simp⟩

theorem floorBoundary_spec (atStart : IsBoundary code low) (le : low ≤ stop) :
    low ≤ floorBoundary code low stop ∧ floorBoundary code low stop ≤ stop ∧
      IsBoundary code (floorBoundary code low stop) ∧
      ∀ next, IsBoundary code next → next ≤ stop → next ≤ floorBoundary code low stop := by
  induction stop with
  | zero =>
    obtain rfl := Nat.le_zero.mp le
    exact ⟨Nat.le_refl _, Nat.le_refl _, atStart, fun _ _ le => le⟩
  | succ stop ih =>
    rw [floorBoundary]
    by_cases inside : low < stop + 1 ∧ ¬ IsBoundary code (stop + 1)
    · rw [if_pos inside]
      obtain ⟨above, below, boundary, greatest⟩ := ih (by omega)
      refine ⟨above, by omega, boundary, fun next isBoundary le => greatest next isBoundary ?_⟩
      have : next ≠ stop + 1 := fun same => inside.2 (same ▸ isBoundary)
      omega
    · rw [if_neg inside]
      refine ⟨le, Nat.le_refl _, ?_, fun _ _ le => le⟩
      rcases Nat.eq_or_lt_of_le le with same | lt
      · exact same ▸ atStart
      · by_contra boundary
        exact inside ⟨lt, boundary⟩

variable {maxBytesPerChunk currentStart lineEnd : ℕ}

theorem chunkEnd_spec (atStart : IsBoundary code currentStart) (atEnd : IsBoundary code lineEnd)
    (rest : currentStart < lineEnd) (inText : lineEnd ≤ byteLen code) (four : 4 ≤ maxBytesPerChunk) :
    currentStart < chunkEnd code maxBytesPerChunk currentStart lineEnd ∧
      chunkEnd code maxBytesPerChunk currentStart lineEnd ≤ lineEnd ∧
      chunkEnd code maxBytesPerChunk currentStart lineEnd ≤ currentStart + maxBytesPerChunk ∧
      IsBoundary code (chunkEnd code maxBytesPerChunk currentStart lineEnd) := by
  obtain ⟨above, below, boundary, greatest⟩ :=
    floorBoundary_spec atStart (Nat.le_add_right currentStart (min (lineEnd - currentStart) maxBytesPerChunk))
  have progress : currentStart <
      floorBoundary code currentStart (currentStart + min (lineEnd - currentStart) maxBytesPerChunk) := by
    by_cases whole : lineEnd - currentStart ≤ maxBytesPerChunk
    · have := greatest lineEnd atEnd (by omega)
      omega
    · obtain ⟨next, after, near, isBoundary⟩ := exists_boundary atStart (by omega)
      have := greatest next isBoundary (by omega)
      omega
  have same : chunkEnd code maxBytesPerChunk currentStart lineEnd =
      floorBoundary code currentStart (currentStart + min (lineEnd - currentStart) maxBytesPerChunk) :=
    if_neg (by omega)
  rw [same]
  exact ⟨progress, by omega, by omega, boundary⟩

end Boundaries

section Fragments

variable {code : Str} {path : Path} {fuel maxBytesPerChunk numLinesPerChunk lineNumber lineEnd currentStart : ℕ}
  {line : LineSpan × ℕ} {lines later : List (LineSpan × ℕ)} {fragments others : List Fragment} {fragment : Fragment}

def At (lines : List (LineSpan × ℕ)) (number byte : ℕ) : Prop :=
  ∃ line ∈ lines, line.2 = number ∧ line.1.start ≤ byte ∧ byte ≤ line.1.stop

structure Chunked (code : Str) (maxBytesPerChunk : ℕ) (lines : List (LineSpan × ℕ)) (fragments : List Fragment) : Prop where
  valid : ∀ fragment ∈ fragments, fragment.Valid code
  small : ∀ fragment ∈ fragments, fragment.size ≤ maxBytesPerChunk
  starts : ∀ fragment ∈ fragments, At lines fragment.startLine fragment.startByteIndex
  ends : ∀ fragment ∈ fragments, At lines fragment.endLine fragment.endByteIndex
  apart : fragments.Pairwise Apart
  covers : ∀ line ∈ lines, ∀ byte, line.1.start ≤ byte → byte < line.1.stop →
    ∃ fragment ∈ fragments, fragment.startByteIndex ≤ byte ∧ byte < fragment.endByteIndex

theorem At.mono {number byte : ℕ} (at_ : At lines number byte) (sub : ∀ line ∈ lines, line ∈ later) : At later number byte := by
  obtain ⟨line, member, inside⟩ := at_
  exact ⟨line, sub line member, inside⟩

theorem Chunked.nil : Chunked code maxBytesPerChunk [] [] := ⟨nofun, nofun, nofun, nofun, .nil, nofun⟩

theorem Chunked.append (chunked : Chunked code maxBytesPerChunk lines fragments)
    (chunkedLater : Chunked code maxBytesPerChunk later others)
    (before : ∀ line ∈ lines, ∀ after ∈ later, line.1.stop < after.1.start) :
    Chunked code maxBytesPerChunk (lines ++ later) (fragments ++ others) where
  valid := List.forall_mem_append.mpr ⟨chunked.valid, chunkedLater.valid⟩
  small := List.forall_mem_append.mpr ⟨chunked.small, chunkedLater.small⟩
  starts := List.forall_mem_append.mpr
    ⟨fun fragment member => (chunked.starts fragment member).mono fun _ => mem_append_left _,
      fun fragment member => (chunkedLater.starts fragment member).mono fun _ => mem_append_right _⟩
  ends := List.forall_mem_append.mpr
    ⟨fun fragment member => (chunked.ends fragment member).mono fun _ => mem_append_left _,
      fun fragment member => (chunkedLater.ends fragment member).mono fun _ => mem_append_right _⟩
  apart := by
    refine List.pairwise_append.mpr ⟨chunked.apart, chunkedLater.apart, fun first isFirst second isSecond => ?_⟩
    obtain ⟨line, inLines, -, -, high⟩ := chunked.ends first isFirst
    obtain ⟨after, inLater, -, low, -⟩ := chunkedLater.starts second isSecond
    have := before line inLines after inLater
    unfold Apart
    omega
  covers line member byte low high := by
    rcases List.mem_append.mp member with here | there
    · obtain ⟨fragment, isFragment, holds⟩ := chunked.covers line here byte low high
      exact ⟨fragment, mem_append_left _ isFragment, holds⟩
    · obtain ⟨fragment, isFragment, holds⟩ := chunkedLater.covers line there byte low high
      exact ⟨fragment, mem_append_right _ isFragment, holds⟩

structure Pieces (code : Str) (maxBytesPerChunk lineNumber start stop : ℕ) (fragments : List Fragment) : Prop where
  valid : ∀ fragment ∈ fragments, fragment.Valid code
  small : ∀ fragment ∈ fragments, fragment.size ≤ maxBytesPerChunk
  numbered : ∀ fragment ∈ fragments, fragment.startLine = lineNumber ∧ fragment.endLine = lineNumber
  inside : ∀ fragment ∈ fragments, start ≤ fragment.startByteIndex ∧ fragment.endByteIndex ≤ stop
  apart : fragments.Pairwise Apart
  covers : ∀ byte, start ≤ byte → byte < stop →
    ∃ fragment ∈ fragments, fragment.startByteIndex ≤ byte ∧ byte < fragment.endByteIndex

theorem Pieces.chunked {start stop : ℕ} (pieces : Pieces code maxBytesPerChunk lineNumber start stop fragments) :
    Chunked code maxBytesPerChunk [(⟨start, stop⟩, lineNumber)] fragments where
  valid := pieces.valid
  small := pieces.small
  starts fragment member := by
    have size := (pieces.valid fragment member).size_eq
    have inside := pieces.inside fragment member
    exact ⟨_, mem_singleton_self _, (pieces.numbered fragment member).1.symm, inside.1, by simp only; omega⟩
  ends fragment member := by
    have size := (pieces.valid fragment member).size_eq
    have inside := pieces.inside fragment member
    exact ⟨_, mem_singleton_self _, (pieces.numbered fragment member).2.symm, by simp only; omega, inside.2⟩
  apart := pieces.apart
  covers line member := by
    obtain rfl := List.mem_singleton.mp member
    exact pieces.covers

theorem splitLine_spec (atStart : IsBoundary code currentStart) (atEnd : IsBoundary code lineEnd)
    (le : currentStart ≤ lineEnd) (inText : lineEnd ≤ byteLen code) (four : 4 ≤ maxBytesPerChunk)
    (turns : lineEnd - currentStart < fuel) :
    ∃ fragments, splitLine code path maxBytesPerChunk lineNumber lineEnd fuel currentStart = some fragments ∧
      Pieces code maxBytesPerChunk lineNumber currentStart lineEnd fragments := by
  induction fuel generalizing currentStart with
  | zero => omega
  | succ fuel ih =>
    rw [splitLine]
    by_cases rest : currentStart < lineEnd
    · obtain ⟨progress, below, short, boundary⟩ := chunkEnd_spec atStart atEnd rest inText four
      obtain ⟨content, sliced⟩ := exists_byteSlice atStart boundary (Nat.le_of_lt progress)
      obtain ⟨fragments, ran, pieces⟩ := ih boundary below (by omega)
      have size := byteLen_of_byteSlice sliced
      rw [if_pos rest, sliced, Option.bind_some, ran]
      refine ⟨_, rfl, ?_, ?_, ?_, ?_, ?_, fun byte low high => ?_⟩
      · exact List.forall_mem_cons.mpr ⟨sliced, pieces.valid⟩
      · refine List.forall_mem_cons.mpr ⟨?_, pieces.small⟩
        change byteLen content ≤ maxBytesPerChunk
        omega
      · exact List.forall_mem_cons.mpr ⟨⟨rfl, rfl⟩, pieces.numbered⟩
      · refine List.forall_mem_cons.mpr ⟨⟨Nat.le_refl _, below⟩, fun fragment member => ?_⟩
        have inside := pieces.inside fragment member
        omega
      · exact List.pairwise_cons.mpr ⟨fun fragment member => (pieces.inside fragment member).1, pieces.apart⟩
      · by_cases first : byte < chunkEnd code maxBytesPerChunk currentStart lineEnd
        · exact ⟨_, mem_cons_self, low, first⟩
        · obtain ⟨fragment, member, holds⟩ := pieces.covers byte (by omega) high
          exact ⟨fragment, mem_cons_of_mem _ member, holds⟩
    · rw [if_neg rest]
      exact ⟨[], rfl, nofun, nofun, nofun, nofun, .nil, fun byte low high => by omega⟩

structure Lines (code : Str) (lines : List (LineSpan × ℕ)) : Prop where
  boundaries : ∀ line ∈ lines, IsBoundary code line.1.start ∧ IsBoundary code line.1.stop ∧ line.1.start ≤ line.1.stop
  apart : lines.Pairwise fun line later => line.1.stop < later.1.start

theorem le_byteLen {n : ℕ} (boundary : IsBoundary code n) : n ≤ byteLen code := by
  obtain ⟨before, after, rfl, rfl⟩ := boundary
  rw [byteLen_append]
  omega

theorem chunkLineByBytes_spec (boundaries : IsBoundary code line.1.start ∧ IsBoundary code line.1.stop ∧ line.1.start ≤ line.1.stop)
    (four : 4 ≤ maxBytesPerChunk) (turns : byteLen code < fuel) :
    ∃ fragments, chunkLineByBytes fuel code path maxBytesPerChunk line = some fragments ∧
      Chunked code maxBytesPerChunk [line] fragments := by
  obtain ⟨atStart, atStop, le⟩ := boundaries
  have inText := le_byteLen atStop
  obtain ⟨content, sliced⟩ := exists_byteSlice atStart atStop le
  have size := byteLen_of_byteSlice sliced
  rw [chunkLineByBytes, sliced, Option.bind_some]
  by_cases short : line.1.stop - line.1.start ≤ maxBytesPerChunk
  · rw [if_pos short]
    refine ⟨_, rfl, Pieces.chunked ⟨?_, ?_, ?_, ?_, ?_, ?_⟩⟩
    · exact List.forall_mem_singleton.mpr sliced
    · intro fragment member
      obtain rfl := List.mem_singleton.mp member
      change byteLen content ≤ maxBytesPerChunk
      omega
    · exact List.forall_mem_singleton.mpr ⟨rfl, rfl⟩
    · exact List.forall_mem_singleton.mpr ⟨Nat.le_refl _, Nat.le_refl _⟩
    · exact pairwise_singleton _ _
    · exact fun byte low high => ⟨_, mem_singleton_self _, low, high⟩
  · rw [if_neg short]
    have turns : line.1.stop - line.1.start < fuel := by omega
    obtain ⟨fragments, ran, pieces⟩ := splitLine_spec atStart atStop le inText four turns
    exact ⟨fragments, ran, pieces.chunked⟩

theorem mapM_chunkLineByBytes (isLines : Lines code lines) (four : 4 ≤ maxBytesPerChunk) (turns : byteLen code < fuel) :
    ∃ fragments, lines.mapM (chunkLineByBytes fuel code path maxBytesPerChunk) = some fragments ∧
      Chunked code maxBytesPerChunk lines fragments.flatten := by
  induction lines with
  | nil => exact ⟨[], rfl, .nil⟩
  | cons line lines ih =>
    obtain ⟨boundaries, rest⟩ := List.forall_mem_cons.mp isLines.boundaries
    obtain ⟨before, apart⟩ := List.pairwise_cons.mp isLines.apart
    obtain ⟨first, ran, chunked⟩ := chunkLineByBytes_spec boundaries four turns
    obtain ⟨fragments, ranRest, chunkedRest⟩ := ih ⟨rest, apart⟩
    refine ⟨first :: fragments, ?_, ?_⟩
    · rw [mapM_cons, ran, ranRest]
      rfl
    · rw [flatten_cons]
      refine chunked.append chunkedRest fun line' same after later => ?_
      obtain rfl := List.mem_singleton.mp same
      exact before after later

theorem append_ends {joined : Fragment} {other : Fragment} (ran : fragment.append other code = .ok joined) :
    joined.startLine = fragment.startLine ∧ joined.startByteIndex = fragment.startByteIndex ∧
      joined.endLine = other.endLine ∧ joined.endByteIndex = other.endByteIndex := by
  unfold Fragment.append at ran
  cases sliced : slice code fragment.startByteIndex other.endByteIndex with
  | error failure =>
    rw [sliced] at ran
    cases ran
  | ok content =>
    rw [sliced] at ran
    cases ran
    exact ⟨rfl, rfl, rfl, rfl⟩

theorem coalesceFragments_ends {starts ends : ℕ → ℕ → Prop} {result : List Fragment}
    (first : ∀ fragment ∈ fragments, starts fragment.startLine fragment.startByteIndex)
    (last : ∀ fragment ∈ fragments, ends fragment.endLine fragment.endByteIndex)
    (ran : coalesceFragments fragments code maxBytesPerChunk = .ok result) :
    ∀ item ∈ result, starts item.startLine item.startByteIndex ∧ ends item.endLine item.endByteIndex := by
  refine @coalesceFragments_keeps _ _ _ (fun item =>
    starts item.startLine item.startByteIndex ∧ ends item.endLine item.endByteIndex) ?_ _ ?_ ran
  · intro fragment other joined holds otherHolds joins
    obtain ⟨startLine, startByte, endLine, endByte⟩ := append_ends joins
    rw [startLine, startByte, endLine, endByte]
    exact ⟨holds.1, otherHolds.2⟩
  · exact fun fragment member => ⟨first fragment member, last fragment member⟩

theorem Chunked.coalesce (chunked : Chunked code maxBytesPerChunk lines fragments) :
    ∃ result, coalesceFragments fragments code maxBytesPerChunk = .ok result ∧
      Chunked code maxBytesPerChunk lines result := by
  obtain ⟨result, ran, coalesced⟩ := coalesceFragments_spec chunked.valid chunked.apart
  have ends := coalesceFragments_ends chunked.starts chunked.ends ran
  refine ⟨result, ran, coalesced.valid, fun whole member => ?_, fun whole member => (ends whole member).1,
    fun whole member => (ends whole member).2, coalesced.apart, fun line member byte low high => ?_⟩
  · obtain ⟨first, isFirst, last, isLast, starts, stops, same | small⟩ := coalesced.ends whole member
    · subst same
      have size := (coalesced.valid whole member).size_eq
      have firstSize := (chunked.valid first isFirst).size_eq
      have small := chunked.small first isFirst
      omega
    · exact small
  · obtain ⟨fragment, isFragment, above, below⟩ := chunked.covers line member byte low high
    obtain ⟨whole, isWhole, starts, stops⟩ := coalesced.covers fragment isFragment
    exact ⟨whole, isWhole, by omega, by omega⟩

theorem Lines.of_cons (isLines : Lines code (line :: lines)) :
    ∀ other ∈ line :: lines, line.1.start ≤ other.1.start := by
  have le := (isLines.boundaries line mem_cons_self).2.2
  refine List.forall_mem_cons.mpr ⟨Nat.le_refl _, fun other member => ?_⟩
  have := (List.pairwise_cons.mp isLines.apart).1 other member
  omega

theorem Lines.of_concat (isLines : Lines code (lines ++ [line])) : ∀ other ∈ lines ++ [line], other.1.stop ≤ line.1.stop := by
  have le := (isLines.boundaries line (mem_append_right _ (mem_singleton_self _))).2.2
  refine List.forall_mem_append.mpr ⟨fun other member => ?_, List.forall_mem_singleton.mpr (Nat.le_refl _)⟩
  have := (List.pairwise_append.mp isLines.apart).2.2 other member line (mem_singleton_self _)
  omega

theorem chunkLines_spec (isLines : Lines code lines) (inhabited : lines ≠ []) (four : 4 ≤ maxBytesPerChunk)
    (turns : byteLen code < fuel) :
    ∃ fragments, chunkLines fuel code path maxBytesPerChunk lines = some fragments ∧
      Chunked code maxBytesPerChunk lines fragments := by
  obtain ⟨first, rest, isFirst⟩ := exists_cons_of_ne_nil inhabited
  obtain ⟨front, last, isLast⟩ := eq_nil_or_concat lines |>.resolve_left inhabited
  rw [concat_eq_append] at isLast
  have head : lines.head? = some first := by rw [isFirst]; rfl
  have getLast : lines.getLast? = some last := by rw [isLast]; simp
  have firstMember : first ∈ lines := by rw [isFirst]; exact mem_cons_self
  have lastMember : last ∈ lines := by rw [isLast]; exact mem_append_right _ (mem_singleton_self _)
  have above : ∀ other ∈ lines, first.1.start ≤ other.1.start := by
    rw [isFirst] at isLines ⊢
    exact isLines.of_cons
  have below : ∀ other ∈ lines, other.1.stop ≤ last.1.stop := by
    rw [isLast] at isLines ⊢
    exact isLines.of_concat
  rw [chunkLines, head, getLast]
  simp only [Option.bind_some]
  by_cases long : maxBytesPerChunk < last.1.stop - first.1.start
  · obtain ⟨fragments, ran, chunked⟩ := mapM_chunkLineByBytes isLines four turns
    obtain ⟨result, coalesced, chunked⟩ := chunked.coalesce
    rw [if_pos long, ran, Option.bind_some, coalesced]
    exact ⟨result, rfl, chunked⟩
  · have atStart := (isLines.boundaries first firstMember).1
    have atStop := (isLines.boundaries last lastMember).2.1
    have le := (isLines.boundaries first firstMember).2.2
    have le' := (isLines.boundaries last lastMember).2.2
    have reaches := below first firstMember
    obtain ⟨content, sliced⟩ := exists_byteSlice atStart atStop (by omega)
    have size := byteLen_of_byteSlice sliced
    rw [if_neg long, sliced]
    refine ⟨_, rfl, ?_, fun fragment member => ?_, ?_, ?_, pairwise_singleton _ _, fun line member byte low high => ?_⟩
    · exact List.forall_mem_singleton.mpr sliced
    · obtain rfl := List.mem_singleton.mp member
      change byteLen content ≤ maxBytesPerChunk
      omega
    · exact List.forall_mem_singleton.mpr ⟨first, firstMember, rfl, Nat.le_refl _, le⟩
    · exact List.forall_mem_singleton.mpr ⟨last, lastMember, rfl, le', Nat.le_refl _⟩
    · exact ⟨_, mem_singleton_self _, (above line member).trans low, Nat.lt_of_lt_of_le high (below line member)⟩

theorem mapM_chunkLines {chunked : List (List (LineSpan × ℕ))} (isLines : Lines code chunked.flatten)
    (inhabited : ∀ chunk ∈ chunked, chunk ≠ []) (four : 4 ≤ maxBytesPerChunk) (turns : byteLen code < fuel) :
    ∃ fragments, chunked.mapM (chunkLines fuel code path maxBytesPerChunk) = some fragments ∧
      Chunked code maxBytesPerChunk chunked.flatten fragments.flatten ∧
      ∀ fragment ∈ fragments.flatten, ∃ chunk ∈ chunked,
        At chunk fragment.startLine fragment.startByteIndex ∧ At chunk fragment.endLine fragment.endByteIndex := by
  induction chunked with
  | nil => exact ⟨[], rfl, .nil, nofun⟩
  | cons chunk rest ih =>
    rw [flatten_cons] at isLines
    obtain ⟨boundaries, boundariesRest⟩ := List.forall_mem_append.mp isLines.boundaries
    obtain ⟨apart, apartRest, before⟩ := List.pairwise_append.mp isLines.apart
    obtain ⟨some, someRest⟩ := List.forall_mem_cons.mp inhabited
    obtain ⟨first, ran, chunked⟩ := chunkLines_spec ⟨boundaries, apart⟩ some four turns
    obtain ⟨fragments, ranRest, chunkedRest, within⟩ := ih ⟨boundariesRest, apartRest⟩ someRest
    refine ⟨first :: fragments, ?_, ?_, ?_⟩
    · rw [mapM_cons, ran, ranRest]
      rfl
    · rw [flatten_cons, flatten_cons]
      exact chunked.append chunkedRest before
    · rw [flatten_cons]
      refine List.forall_mem_append.mpr ⟨fun fragment member => ?_, fun fragment member => ?_⟩
      · exact ⟨chunk, mem_cons_self, chunked.starts fragment member, chunked.ends fragment member⟩
      · obtain ⟨chunk, isChunk, holds⟩ := within fragment member
        exact ⟨chunk, mem_cons_of_mem _ isChunk, holds⟩

end Fragments

section Whole

variable {code : Str} {path : Path} {fuel maxBytesPerChunk numLinesPerChunk start size : ℕ} {spans : List LineSpan}
  {lineSpans : Str → List LineSpan} {fragments : List Fragment}

theorem chunks_spec (positive : size ≠ 0) :
    (chunks size (spans.zipIdx start)).flatten = spans.zipIdx start ∧
      ∀ chunk ∈ chunks size (spans.zipIdx start), chunk ≠ [] ∧
        ∃ first, ∀ line ∈ chunk, first ≤ line.2 ∧ line.2 < first + size := by
  induction length : spans.length using Nat.strong_induction_on generalizing spans start with
  | _ length ih =>
    subst length
    rw [chunks]
    by_cases empty : spans = []
    · subst empty
      rw [if_pos (.inl rfl)]
      exact ⟨rfl, nofun⟩
    have shorter : (spans.drop size).length < spans.length := by
      have := List.length_pos_iff.mpr empty
      rw [length_drop]
      omega
    have drop : (spans.zipIdx start).drop size = (spans.drop size).zipIdx (start + size) := by
      ext1 i
      rw [List.getElem?_drop, List.getElem?_zipIdx, List.getElem?_zipIdx, List.getElem?_drop, Nat.add_assoc]
    have rest : (chunks size ((spans.drop size).zipIdx (start + size))).flatten = (spans.drop size).zipIdx (start + size) ∧
        ∀ chunk ∈ chunks size ((spans.drop size).zipIdx (start + size)), chunk ≠ [] ∧
          ∃ first, ∀ line ∈ chunk, first ≤ line.2 ∧ line.2 < first + size := ih _ shorter rfl
    rw [if_neg (by simpa [positive] using empty), flatten_cons, drop, rest.1, ← drop]
    refine ⟨take_append_drop _ _, List.forall_mem_cons.mpr ⟨⟨?_, start, fun line member => ?_⟩, ?_⟩⟩
    · simpa [positive] using empty
    · obtain ⟨i, lt, rfl⟩ := List.mem_take_iff_getElem.mp member
      rw [getElem_zipIdx]
      simp only
      omega
    · rw [drop]
      exact rest.2

theorem LineSpans.lines {rest before : Str} (isSpans : LineSpans start rest spans) (parts : code = before ++ rest)
    (length : byteLen before = start) :
    (∀ span ∈ spans, IsBoundary code span.start ∧ IsBoundary code span.stop ∧ span.start ≤ span.stop ∧ start ≤ span.start) ∧
      spans.Pairwise (fun span later => span.stop < later.start) ∧
      ∀ byte, start ≤ byte → byte < byteLen code →
        IsTerminator code byte ∨ ∃ span ∈ spans, span.start ≤ byte ∧ byte < span.stop := by
  induction isSpans generalizing before with
  | nil =>
    refine ⟨nofun, .nil, fun byte low high => ?_⟩
    rw [parts, append_nil] at high
    omega
  | @last start line _ =>
    have total : byteLen code = start + byteLen line := by rw [parts, byteLen_append, length]
    refine ⟨List.forall_mem_singleton.mpr ⟨⟨before, line, parts, length⟩, ?_, Nat.le_add_right _ _, Nat.le_refl _⟩,
      pairwise_singleton _ _, fun byte low high => .inr ⟨_, mem_singleton_self _, low, by rw [← total]; exact high⟩⟩
    exact ⟨code, [], (append_nil _).symm, total⟩
  | @terminated start line terminator rest spans _ ends _ ih =>
    have upTo : byteLen (before ++ line) = start + byteLen line := by rw [byteLen_append, length]
    have isTerminator : terminator = ['\n'] ∨ terminator = ['\r', '\n'] := ends.imp_left And.left
    have positive : 0 < byteLen terminator := by rcases isTerminator with rfl | rfl <;> decide
    have whole : code = before ++ line ++ terminator ++ rest := by simp [parts]
    obtain ⟨inside, apart, covers⟩ := ih whole (by rw [byteLen_append, upTo])
    have atStart : IsBoundary code start := ⟨before, _, parts, length⟩
    have atStop : IsBoundary code (start + byteLen line) := ⟨before ++ line, terminator ++ rest, by simp [parts], upTo⟩
    refine ⟨List.forall_mem_cons.mpr ⟨⟨atStart, atStop, Nat.le_add_right _ _, Nat.le_refl _⟩, fun span member => ?_⟩,
      List.pairwise_cons.mpr ⟨fun span member => ?_, apart⟩, fun byte low high => ?_⟩
    · obtain ⟨first, second, third, after⟩ := inside span member
      exact ⟨first, second, third, by omega⟩
    · have := (inside span member).2.2.2
      simp only
      omega
    · by_cases here : byte < start + byteLen line
      · exact .inr ⟨_, mem_cons_self, low, here⟩
      by_cases ended : byte < start + byteLen line + byteLen terminator
      · exact .inl ⟨before ++ line, terminator, rest, whole, isTerminator, by omega, by omega⟩
      · rcases covers byte (by omega) high with terminator | ⟨span, member, holds⟩
        · exact .inl terminator
        · exact .inr ⟨span, mem_cons_of_mem _ member, holds⟩

/-- Fragments in order, between character boundaries, within both of the limits and by the lines that they touch, which have
every byte but those of terminators once. -/
structure Covers (code : Str) (spans : List LineSpan) (maxBytesPerChunk numLinesPerChunk : ℕ) (fragments : List Fragment) :
    Prop where
  valid : ∀ fragment ∈ fragments, fragment.Valid code
  apart : fragments.Pairwise Apart
  small : ∀ fragment ∈ fragments, fragment.size ≤ maxBytesPerChunk
  short : ∀ fragment ∈ fragments, fragment.endLine < fragment.startLine + numLinesPerChunk
  numbered : ∀ fragment ∈ fragments, fragment.startLine ≤ fragment.endLine ∧ fragment.endLine < spans.length
  touches : ∀ fragment ∈ fragments, ∀ (line : ℕ) span, spans[line]? = some span →
    ((fragment.startLine ≤ line ∧ line ≤ fragment.endLine) ↔
      (span.start ≤ fragment.endByteIndex ∧ fragment.startByteIndex ≤ span.stop))
  once : ∀ byte < byteLen code, ¬ IsTerminator code byte →
    ∃ fragment, (fragments.filter fun fragment => fragment.startByteIndex ≤ byte ∧ byte < fragment.endByteIndex) = [fragment]

theorem filter_eq_singleton {byte : ℕ} (apart : fragments.Pairwise Apart)
    (held : ∃ fragment ∈ fragments, fragment.startByteIndex ≤ byte ∧ byte < fragment.endByteIndex) :
    ∃ fragment, (fragments.filter fun fragment => fragment.startByteIndex ≤ byte ∧ byte < fragment.endByteIndex) =
      [fragment] := by
  have holds : ∀ fragment ∈ fragments.filter fun fragment => fragment.startByteIndex ≤ byte ∧ byte < fragment.endByteIndex,
      fragment.startByteIndex ≤ byte ∧ byte < fragment.endByteIndex :=
    fun fragment member => of_decide_eq_true (List.mem_filter.mp member).2
  have apart := apart.filter fun fragment => decide (fragment.startByteIndex ≤ byte ∧ byte < fragment.endByteIndex)
  obtain ⟨fragment, member, inside⟩ := held
  have member : fragment ∈ fragments.filter fun fragment =>
      fragment.startByteIndex ≤ byte ∧ byte < fragment.endByteIndex := List.mem_filter.mpr ⟨member, decide_eq_true inside⟩
  match found : fragments.filter fun fragment => fragment.startByteIndex ≤ byte ∧ byte < fragment.endByteIndex with
  | [] =>
    rw [found] at member
    cases member
  | [fragment] => exact ⟨fragment, found⟩
  | first :: second :: rest =>
    rw [found] at apart holds
    have := (List.pairwise_cons.mp apart).1 second mem_cons_self
    have := holds first mem_cons_self
    have := holds second (mem_cons_of_mem _ mem_cons_self)
    unfold Apart at *
    omega

theorem stop_lt_start (apart : spans.Pairwise fun span later => span.stop < later.start) {i j : ℕ} {a b : LineSpan}
    (foundA : spans[i]? = some a) (foundB : spans[j]? = some b) (lt : i < j) : a.stop < b.start := by
  obtain ⟨hi, rfl⟩ := List.getElem?_eq_some_iff.mp foundA
  obtain ⟨hj, rfl⟩ := List.getElem?_eq_some_iff.mp foundB
  exact List.pairwise_iff_getElem.mp apart i j hi hj lt

theorem At.span {number byte : ℕ} (at_ : At spans.zipIdx number byte) :
    ∃ span, spans[number]? = some span ∧ span.start ≤ byte ∧ byte ≤ span.stop := by
  obtain ⟨⟨span, i⟩, member, rfl, inside⟩ := at_
  exact ⟨span, List.mem_zipIdx_iff_getElem?.mp member, inside⟩

theorem touches_iff {fragment : Fragment} {line : ℕ} {span : LineSpan}
    (ordered : ∀ span ∈ spans, span.start ≤ span.stop) (apart : spans.Pairwise fun span later => span.stop < later.start)
    (starts : At spans.zipIdx fragment.startLine fragment.startByteIndex)
    (ends : At spans.zipIdx fragment.endLine fragment.endByteIndex) (found : spans[line]? = some span) :
    (fragment.startLine ≤ line ∧ line ≤ fragment.endLine) ↔
      (span.start ≤ fragment.endByteIndex ∧ fragment.startByteIndex ≤ span.stop) := by
  obtain ⟨first, foundFirst, firstLow, firstHigh⟩ := starts.span
  obtain ⟨last, foundLast, lastLow, lastHigh⟩ := ends.span
  have le := ordered span (mem_of_getElem? found)
  constructor
  · rintro ⟨after, before⟩
    constructor
    · rcases Nat.eq_or_lt_of_le before with rfl | lt
      · rw [found, Option.some.injEq] at foundLast
        subst foundLast
        exact lastLow
      · have := stop_lt_start apart found foundLast lt
        omega
    · rcases Nat.eq_or_lt_of_le after with rfl | lt
      · rw [found, Option.some.injEq] at foundFirst
        subst foundFirst
        exact firstHigh
      · have := stop_lt_start apart foundFirst found lt
        omega
  · rintro ⟨below, above⟩
    constructor
    · by_contra lt
      have := stop_lt_start apart found foundFirst (by omega)
      omega
    · by_contra lt
      have := stop_lt_start apart foundLast found (by omega)
      omega

theorem chunkCode_chunked (isSpans : LineSpans 0 code (lineSpans code)) (positive : 1 ≤ numLinesPerChunk)
    (four : 4 ≤ maxBytesPerChunk) (turns : byteLen code < fuel) :
    ∃ fragments, chunkCode fuel code path maxBytesPerChunk numLinesPerChunk lineSpans = some fragments ∧
      Chunked code maxBytesPerChunk (lineSpans code).zipIdx fragments ∧
      ∀ fragment ∈ fragments, fragment.endLine < fragment.startLine + numLinesPerChunk := by
  obtain ⟨inside, apart, -⟩ := isSpans.lines (nil_append code).symm rfl
  have isLines : Lines code (lineSpans code).zipIdx := by
    constructor
    · intro line member
      obtain ⟨first, second, third, -⟩ := inside line.1 (fst_mem_of_mem_zipIdx member)
      exact ⟨first, second, third⟩
    · rw [← zipIdx_map_fst 0 (lineSpans code), pairwise_map] at apart
      exact apart
  have positive : numLinesPerChunk ≠ 0 := Nat.ne_of_gt positive
  obtain ⟨flat, each⟩ : (chunks numLinesPerChunk (lineSpans code).zipIdx).flatten = (lineSpans code).zipIdx ∧ _ :=
    chunks_spec positive
  rw [← flat] at isLines
  obtain ⟨fragments, ran, chunked, within⟩ : ∃ fragments, (chunks numLinesPerChunk (lineSpans code).zipIdx).mapM
      (chunkLines fuel code path maxBytesPerChunk) = some fragments ∧ _ :=
    mapM_chunkLines isLines (fun chunk member => (each chunk member).1) four turns
  rw [flat] at chunked
  refine ⟨fragments.flatten, ?_, chunked, fun fragment member => ?_⟩
  · rw [chunkCode, if_neg positive, ran]
    rfl
  · obtain ⟨chunk, isChunk, ⟨first, isFirst, startLine, -⟩, ⟨last, isLast, endLine, -⟩⟩ := within fragment member
    obtain ⟨least, bounds⟩ := (each chunk isChunk).2
    have := bounds first isFirst
    have := bounds last isLast
    omega

theorem chunkCode_covers (isSpans : LineSpans 0 code (lineSpans code)) (positive : 1 ≤ numLinesPerChunk)
    (four : 4 ≤ maxBytesPerChunk) (turns : byteLen code < fuel) :
    ∃ fragments, chunkCode fuel code path maxBytesPerChunk numLinesPerChunk lineSpans = some fragments ∧
      Covers code (lineSpans code) maxBytesPerChunk numLinesPerChunk fragments := by
  obtain ⟨inside, apart, terminated⟩ := isSpans.lines (nil_append code).symm rfl
  have ordered : ∀ span ∈ lineSpans code, span.start ≤ span.stop := fun span member => (inside span member).2.2.1
  obtain ⟨fragments, ran, chunked, short⟩ := @chunkCode_chunked _ path _ _ _ _ isSpans positive four turns
  have sized : ∀ fragment ∈ fragments, fragment.startByteIndex ≤ fragment.endByteIndex := fun fragment member =>
    Nat.le.intro (chunked.valid fragment member).size_eq
  refine ⟨fragments, ran, chunked.valid, chunked.apart, chunked.small, short,
    fun fragment member => ?_, fun fragment member line span found => ?_, fun byte inText plain => ?_⟩
  · obtain ⟨first, foundFirst, firstLow, firstHigh⟩ := (chunked.starts fragment member).span
    obtain ⟨last, foundLast, lastLow, lastHigh⟩ := (chunked.ends fragment member).span
    have := sized fragment member
    refine ⟨?_, (List.getElem?_eq_some_iff.mp foundLast).1⟩
    by_contra lt
    have := stop_lt_start apart foundLast foundFirst (by omega)
    omega
  · exact touches_iff ordered apart (chunked.starts fragment member) (chunked.ends fragment member) found
  · obtain ⟨span, member, low, high⟩ := (terminated byte (Nat.zero_le _) inText).resolve_left plain
    obtain ⟨i, found⟩ := mem_iff_getElem?.mp member
    have isLine : (span, i) ∈ (lineSpans code).zipIdx := List.mem_zipIdx_iff_getElem?.mpr found
    exact filter_eq_singleton chunked.apart (chunked.covers (span, i) isLine byte low high)

theorem chunkCode_covers_split :
    ∃ fragments, chunkCode 11 ("ab".toList ++ ['\n'] ++ "abcdéf".toList) ["a".toList] 4 2
        (fun _ => [⟨0, 2⟩, ⟨3, 10⟩]) = some fragments ∧
      Covers ("ab".toList ++ ['\n'] ++ "abcdéf".toList) [⟨0, 2⟩, ⟨3, 10⟩] 4 2 fragments :=
  chunkCode_covers (.terminated (by decide) (.inl ⟨rfl, by decide⟩) (.last (by decide))) (by decide) (by decide) (by decide)

end Whole

end Warp.Chunker.Naive
