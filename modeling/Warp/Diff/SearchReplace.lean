import Warp.Diff.Validation
import Warp.Lib.Checked

namespace Warp.Diff

open Str

structure SearchAndReplace where
  search : Str
  replace : Str
deriving DecidableEq

def usizeMax : ℕ := 2 ^ 64 - 1

def digitsValue (digits : Str) : ℕ := digits.foldl (fun value digit => 10 * value + (digit.toNat - '0'.toNat)) 0

/-- A line's number, and the line after the bar. A number that no word can hold is part of the line. -/
def parseLineNumber (search : Str) : Option ℕ × Str :=
  let digits := search.takeWhile Char.isDigit
  match search.dropWhile Char.isDigit with
  | '|' :: line =>
    if digits ≠ [] ∧ digitsValue digits ≤ usizeMax then (some (digitsValue digits), line) else (none, search)
  | _ => (none, search)

def incrementWord (overflowChecks : Bool) (number : ℕ) : Option ℕ :=
  if overflowChecks && number = usizeMax then none else some ((number + 1) % 2 ^ 64)

/-- The range of the line numbers, and the text without them. The range of an empty text stands for the start of the file. -/
def parseLineNumbers (overflowChecks : Bool) (search : Str) : Option (Option Range × Str) :=
  let parsed := (Str.lines search).map parseLineNumber
  match parsed.head?, parsed.getLast? with
  | some first, some last =>
    match first.1, last.1 with
    | some start, some stop =>
      (incrementWord overflowChecks stop).map fun stop => (some ⟨start, stop⟩, join (parsed.map Prod.snd))
    | _, _ => some (none, search)
  | _, _ => some (some ⟨0, 0⟩, search)

def isStrictTrimmedPrefix (search fileLine : Str) : Bool :=
  let trimmedSearch := trimStart search
  let trimmedFile := trimStart fileLine
  trimmedSearch ≠ [] && trimmedSearch.length < trimmedFile.length && trimmedSearch.isPrefixOf trimmedFile

def unmatchedLineSuffix (searchLine fileLine : Str) : Option Str :=
  if isStrictTrimmedPrefix searchLine fileLine then some ((trimStart fileLine).drop (trimStart searchLine).length) else none

def trimEndLineFeeds (s : Str) : Str := (s.reverse.dropWhile (· = '\n')).reverse

def appendUnmatchedLineSuffix (search fileLine insertion : Str) : Str :=
  match (lines search).getLast? with
  | none => insertion
  | some searchLastLine =>
    match unmatchedLineSuffix searchLastLine fileLine with
    | none => insertion
    | some suffix =>
      match (lines insertion).getLast? with
      | none => insertion
      | some insertionLastLine =>
        if (lines search).length ≠ (lines insertion).length ∧ trimStart searchLastLine ≠ trimStart insertionLastLine then
          insertion
        else
          let kept := trimEndLineFeeds insertion
          kept ++ suffix ++ insertion.drop kept.length

/-- The last line of the search text is cut short, the lines before it are the window's up to their indentation. -/
def prefixTailMatch : Scorer := fun searchText targetLines =>
  let searchLines := (lines searchText).map trimStart
  if targetLines.length ≠ searchLines.length then 0
  else
    match searchLines.getLast?, targetLines.getLast? with
    | some searchLast, some targetLast =>
      if (searchLines.dropLast.zip targetLines.dropLast).all (fun pair => pair.1 = trimStart pair.2) ∧
          isStrictTrimmedPrefix searchLast targetLast then 1
      else 0
    | _, _ => 0

/-- Whether a range of line numbers is one of the file's, where the line after the last one may be its end. -/
def inFile (targetLines : List Str) (range : Range) : Bool :=
  0 < range.start && range.start ≤ targetLines.length && 0 < range.stop && range.stop ≤ targetLines.length + 1 &&
    range.start ≤ range.stop

/-- The scorers with their thresholds, in the order in which they are tried. A line that is cut short is only looked for near
line numbers. -/
def searchTiers (jaroWinkler : JaroWinkler) (lineRange : Option Range) : List (ℚ × Scorer) :=
  [(sectionMatchThreshold, exactMatch), (sectionMatchThreshold, indentationAgnosticMatch)] ++
    (if lineRange.isSome then [(1, prefixTailMatch)] else []) ++ [(sectionMatchThreshold, jaroWinklerMatch jaroWinkler)]

def matchSearch (overflowChecks : Bool) (search : Str) (lineRange : Option Range) (targetLines : List Str) :
    List (ℚ × Scorer) → Option (Option Range)
  | [] => some none
  | (threshold, factory) :: tiers => do
    match ← matchDiff overflowChecks search lineRange targetLines threshold factory with
    | some range => some (some range)
    | none => matchSearch overflowChecks search lineRange targetLines tiers

/-- The lines that match the search text. The range of an empty text stays, to insert at the start of the file. -/
def findSearch (overflowChecks : Bool) (jaroWinkler : JaroWinkler) (targetLines : List Str) (lineRange : Option Range)
    (search : Str) : Option (Option Range) :=
  if lineRange = some ⟨0, 0⟩ then some lineRange
  else
    let lineRange := lineRange.filter (inFile targetLines)
    matchSearch overflowChecks search lineRange targetLines (searchTiers jaroWinkler lineRange)

def isIdentical (targetLines : List Str) (range : Range) (replace : Str) : Option Bool :=
  if range = ⟨0, 0⟩ then some false
  else do
    let start ← Checked.sub range.start 1
    let stop ← Checked.sub range.stop 1
    let original ← slice targetLines start stop
    some (decide (Str.lines replace = original))

def insertionFor (search : Str) (targetLines : List Str) (range : Range) (replace : Str) : Option Str :=
  if 2 ≤ range.stop then do
    let lastLine ← targetLines[range.stop - 2]?
    some (appendUnmatchedLineSuffix search lastLine replace)
  else some replace

def bump (overflowChecks : Bool) (counts : Prop) [Decidable counts] (count : ℕ) : Option ℕ :=
  if counts then increment overflowChecks count else some count

def matchSearchAndReplace (overflowChecks : Bool) (jaroWinkler : JaroWinkler) (targetLines : List Str)
    (state : List DiffDelta × DiffMatchFailures) (diff : SearchAndReplace) : Option (List DiffDelta × DiffMatchFailures) := do
  let (deltas, failures) := state
  let (lineRange, search) ← parseLineNumbers overflowChecks diff.search
  let missing ← bump overflowChecks (lineRange = none ∧ search ≠ []) failures.missingLineNumbers
  let failures := { failures with missingLineNumbers := missing }
  let noop := (increment overflowChecks failures.noopDeltas).map fun count =>
    (deltas, { failures with noopDeltas := count })
  if search = diff.replace then noop
  else
    match ← findSearch overflowChecks jaroWinkler targetLines lineRange search with
    | some range =>
      if ← isIdentical targetLines range diff.replace then noop
      else
        let insertion ← insertionFor search targetLines range diff.replace
        some (deltas ++ [⟨range, insertion⟩], failures)
    | none =>
      let count ← increment overflowChecks failures.fuzzyMatchFailures
      some (deltas, { failures with fuzzyMatchFailures := count })

def fuzzyMatchFileDiffs (overflowChecks : Bool) (jaroWinkler : JaroWinkler) (diffs : List SearchAndReplace) (fileContent : Str) :
    Option (List DiffDelta × DiffMatchFailures) :=
  diffs.foldlM (matchSearchAndReplace overflowChecks jaroWinkler (lines fileContent)) ([], ⟨0, 0, 0⟩)

def fuzzyMatchDiffs (overflowChecks : Bool) (jaroWinkler : JaroWinkler) (fileName : Str) (diffs : List SearchAndReplace)
    (fileContent : Str) : Option AIRequestedCodeDiff := do
  let (deltas, failures) ← fuzzyMatchFileDiffs overflowChecks jaroWinkler diffs fileContent
  some ⟨fileName, .update deltas none, surfaced failures deltas.isEmpty, fileContent⟩

def AIRequestedCodeDiff.warrantsFailure (diff : AIRequestedCodeDiff) : Bool :=
  match diff.failures with
  | some failures =>
    let updateDeltasEmpty := match diff.diffType with
      | .update deltas _ => deltas.isEmpty
      | .create _ | .delete _ => false
    0 < failures.fuzzyMatchFailures || 0 < failures.noopDeltas && updateDeltasEmpty
  | none => false

end Warp.Diff
