import Warp.Lib.FirstBest
import Warp.Lib.Lines

namespace Warp.Diff

open Str

structure Range where
  start : ℕ
  stop : ℕ
deriving DecidableEq

structure DiffDelta where
  replacementLineRange : Range
  insertion : Str
deriving DecidableEq

inductive DiffType where
  | create (delta : DiffDelta)
  | update (deltas : List DiffDelta) (rename : Option Str)
  | delete (delta : DiffDelta)
deriving DecidableEq

structure DiffMatchFailures where
  fuzzyMatchFailures : ℕ
  noopDeltas : ℕ
  missingLineNumbers : ℕ
deriving DecidableEq

structure AIRequestedCodeDiff where
  fileName : Str
  diffType : DiffType
  failures : Option DiffMatchFailures
  originalContent : Str
deriving DecidableEq

structure V4AHunk where
  changeContext : List Str
  preContext : Str
  old : Str
  new : Str
  postContext : Str
deriving DecidableEq

structure Match where
  startLine : ℕ
  endLine : ℕ
  similarity : ℚ
deriving DecidableEq

def lines (s : Str) : List Str := if s = [] then Str.lines ['\n'] else Str.lines s

abbrev Scorer := Str → List Str → ℚ

abbrev JaroWinkler := Str → Str → ℚ

def exactMatch : Scorer := fun searchText targetLines => if targetLines = lines searchText then 1 else 0

def indentationAgnosticMatch : Scorer := fun searchText targetLines =>
  let searchLines := (lines searchText).map trimStart
  if ((targetLines.map trimStart).zip searchLines).all fun pair => pair.1 = pair.2 then 1 else 0

def jaroWinklerMatch (jaroWinkler : JaroWinkler) : Scorer := fun searchText targetLines =>
  jaroWinkler (join ((lines searchText).map trimStart)) (join (targetLines.map trimStart))

def sectionMatchThreshold : ℚ := 9 / 10

def window (xs : List Str) (size i : ℕ) : List Str := (xs.drop i).take size

def rank (expectedRange : Option Range) (found : Match) : ℚ ×ₗ ℕᵒᵈ :=
  toLex (found.similarity, OrderDual.toDual
    ((expectedRange.map fun range => (found.startLine - range.start) + (range.start - found.startLine)).getD 0))

def scoreMatches (targetLines : List Str) (searchWindowLines : ℕ) (threshold : ℚ) (expectedRange : Option Range)
    (scorer : List Str → ℚ) : List Match :=
  if searchWindowLines = 0 ∨ targetLines.length < searchWindowLines then []
  else
    let found := (List.range (targetLines.length + 1 - searchWindowLines)).filterMap fun i =>
      let similarity := scorer (window targetLines searchWindowLines i)
      if threshold ≤ similarity then some ⟨i + 1, i + searchWindowLines + 1, similarity⟩ else none
    found.insertionSort (byScore (rank expectedRange))

/-- Panics if the expected range ends before the lines near its start and overflow is checked. -/
def matchDiff (overflowChecks : Bool) (search : Str) (lineRange : Option Range) (fileContent : List Str)
    (threshold : ℚ) (factory : Scorer) : Option (Option Range) := do
  let searchLength := (lines search).length
  let scorer := factory search
  let localMatch ← match lineRange with
    | none => some none
    | some range =>
      let searchStart := range.start - 2
      let searchEnd := min (range.stop + 2) fileContent.length
      if searchStart ≤ searchEnd then
        if overflowChecks && range.stop < searchStart then none
        else
          let localLines := (fileContent.take searchEnd).drop searchStart
          let localMatches := scoreMatches localLines searchLength threshold
            (some ⟨range.start - searchStart, range.stop - searchStart⟩) scorer
          some (localMatches.head?.map fun found => ⟨found.startLine + searchStart, found.endLine + searchStart⟩)
      else some none
  match localMatch with
  | some range => some (some range)
  | none =>
    some ((scoreMatches fileContent searchLength threshold lineRange scorer).head?.map fun found =>
      ⟨found.startLine, found.endLine⟩)

/-- The line after the last marker. Markers that are empty are skipped. -/
def findChangeContextStart (changeContext fileLines : List Str) : Option ℕ :=
  changeContext.foldlM (fun currentPos marker =>
    if marker = [] then some currentPos
    else ((fileLines.drop currentPos).findIdx? fun line => (trim marker).isPrefixOf (trimStart line)).map
      fun relativeMatch => currentPos + relativeMatch + 1) 0

def calculateOldRange (searchStart : ℕ) (matchedRange : Range) (preContextLines oldLines : List Str) : Option Range :=
  let oldStart := searchStart + matchedRange.start - 1 + preContextLines.length
  let oldEnd := oldStart + oldLines.length
  some ⟨oldStart + 1, oldEnd + 1⟩

namespace V4AHunk

def preContextLines (edit : V4AHunk) : List Str := Str.lines edit.preContext

def oldLines (edit : V4AHunk) : List Str := Str.lines edit.old

def postContextLines (edit : V4AHunk) : List Str := Str.lines edit.postContext

def pattern (edit : V4AHunk) : List Str := edit.preContextLines ++ edit.oldLines ++ edit.postContextLines

def searchStart (edit : V4AHunk) (fileLines : List Str) : Option ℕ :=
  if edit.changeContext = [] then some 0 else findChangeContextStart edit.changeContext fileLines

end V4AHunk

def v4aTiers (jaroWinkler : JaroWinkler) : List (ℚ × Scorer) :=
  [(1, exactMatch), (1, indentationAgnosticMatch), (sectionMatchThreshold, jaroWinklerMatch jaroWinkler)]

def matchTiers (overflowChecks : Bool) (search : Str) (searchLines : List Str) :
    List (ℚ × Scorer) → Option (Option Range)
  | [] => some none
  | (threshold, factory) :: tiers => do
    match ← matchDiff overflowChecks search none searchLines threshold factory with
    | some range => some (some range)
    | none => matchTiers overflowChecks search searchLines tiers

def findV4aMatch (overflowChecks : Bool) (jaroWinkler : JaroWinkler) (edit : V4AHunk) (fileLines : List Str) :
    Option (Option Range) :=
  match edit.searchStart fileLines with
  | none => some none
  | some searchStart =>
    let searchLines := fileLines.drop searchStart
    let patternLength := edit.preContextLines.length + edit.oldLines.length + edit.postContextLines.length
    if patternLength = 0 then some (some ⟨searchStart + 1, searchStart + 1⟩)
    else if searchLines.length < patternLength then some none
    else do
      let found ← matchTiers overflowChecks (join edit.pattern) searchLines (v4aTiers jaroWinkler)
      some (found.bind fun range => calculateOldRange searchStart range edit.preContextLines edit.oldLines)

def increment (overflowChecks : Bool) (count : ℕ) : Option ℕ :=
  if overflowChecks && count = 2 ^ 8 - 1 then none else some ((count + 1) % 2 ^ 8)

/-- The lines between two positions. Panics if these are not in order or not in the list. -/
def slice (xs : List Str) (start stop : ℕ) : Option (List Str) :=
  if start ≤ stop ∧ stop ≤ xs.length then some ((xs.take stop).drop start) else none

def matchHunk (overflowChecks : Bool) (jaroWinkler : JaroWinkler) (fileLines : List Str)
    (state : List DiffDelta × DiffMatchFailures) (diff : V4AHunk) : Option (List DiffDelta × DiffMatchFailures) :=
  let (deltas, failures) := state
  let noop := (increment overflowChecks failures.noopDeltas).map fun count =>
    (deltas, { failures with noopDeltas := count })
  if diff.old = diff.new then noop
  else do
    match ← findV4aMatch overflowChecks jaroWinkler diff fileLines with
    | some range =>
      let matchedContent ← slice fileLines (range.start - 1) (range.stop - 1)
      if diff.new = join matchedContent then noop
      else some (deltas ++ [⟨⟨range.start, range.stop⟩, diff.new⟩], failures)
    | none =>
      let count ← increment overflowChecks failures.fuzzyMatchFailures
      some (deltas, { failures with fuzzyMatchFailures := count })

/-- Drops every delta that starts before the end of the accepted delta before it. -/
def deduplicateOverlappingDeltas (sortedDeltas : List DiffDelta) : List DiffDelta :=
  sortedDeltas.foldl (fun result delta =>
    let dominated := result.getLast?.any fun prev =>
      delta.replacementLineRange.start < prev.replacementLineRange.stop
    if dominated then result else result ++ [delta]) []

/-- Failures are surfaced only when they are meaningful to the caller. -/
def surfaced (failures : DiffMatchFailures) (updateDeltasEmpty : Bool) : Option DiffMatchFailures :=
  if 0 < failures.fuzzyMatchFailures ∨ 0 < failures.missingLineNumbers ∨
      0 < failures.noopDeltas ∧ updateDeltasEmpty = true then some failures
  else none

def startsBefore (a b : DiffDelta) : Prop := a.replacementLineRange.start ≤ b.replacementLineRange.start

instance : DecidableRel startsBefore := fun a b =>
  inferInstanceAs (Decidable (a.replacementLineRange.start ≤ b.replacementLineRange.start))

def fuzzyMatchV4aDiffs (overflowChecks : Bool) (jaroWinkler : JaroWinkler) (fileName : Str) (diffs : List V4AHunk)
    (renameTo : Option Str) (fileContent : Str) : Option AIRequestedCodeDiff := do
  let fileLines := Str.lines fileContent
  let (deltas, failures) ← diffs.foldlM (matchHunk overflowChecks jaroWinkler fileLines) ([], ⟨0, 0, 0⟩)
  let deltas := deduplicateOverlappingDeltas (deltas.insertionSort startsBefore)
  some ⟨fileName, .update deltas renameTo, surfaced failures deltas.isEmpty, fileContent⟩

end Warp.Diff
