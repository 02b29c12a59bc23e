import Warp.Diff.SearchFailures

namespace Warp.Diff

open Str

section Occurrences

variable {search : Str} {targetLines : List Str} {range : Range} {lo hi i j : ℕ}

def Occurs (search : Str) (targetLines : List Str) (i : ℕ) : Prop :=
  i + (lines search).length ≤ targetLines.length ∧ window targetLines (lines search).length i = lines search

instance : Decidable (Occurs search targetLines i) := inferInstanceAs (Decidable (_ ∧ _))

def distance (range : Range) (i : ℕ) : ℕ := (i + 1 - range.start) + (range.start - (i + 1))

def Around (search : Str) (targetLines : List Str) (range : Range) (i : ℕ) : Prop :=
  aroundStart range ≤ i ∧ i + (lines search).length ≤ aroundStop targetLines range

theorem exactMatch_reaches {xs : List Str} : sectionMatchThreshold ≤ exactMatch search xs ↔ xs = lines search := by
  have high : sectionMatchThreshold ≤ 1 := by decide +kernel
  have positive : ¬ sectionMatchThreshold ≤ 0 := by decide +kernel
  unfold exactMatch
  split <;> simp [*]

theorem candidate_exactMatch_iff (fits : hi ≤ targetLines.length) :
    Candidate (exactMatch search) (lines search).length sectionMatchThreshold targetLines lo hi i ↔
      Occurs search targetLines i ∧ lo ≤ i ∧ i + (lines search).length ≤ hi := by
  constructor
  · intro candidate
    exact ⟨⟨Nat.le_trans candidate.inside fits, exactMatch_reaches.mp candidate.reaches⟩, candidate.after, candidate.inside⟩
  · intro ⟨occurs, after, inside⟩
    exact ⟨after, inside, exactMatch_reaches.mpr occurs.2⟩

theorem rank_occurs (hint : Option Range) (occurs : Occurs search targetLines i) :
    rank hint (matchAt (exactMatch search) (lines search).length targetLines i) =
      toLex (1, OrderDual.toDual ((hint.map (distance · i)).getD 0)) := by
  have similarity : exactMatch search (window targetLines (lines search).length i) = 1 := if_pos occurs.2
  unfold rank matchAt distance
  rw [similarity]

theorem rank_occurs_le (hint : Option Range) (occurs : Occurs search targetLines i) (other : Occurs search targetLines j) :
    rank hint (matchAt (exactMatch search) (lines search).length targetLines j) ≤
      rank hint (matchAt (exactMatch search) (lines search).length targetLines i) ↔
    (hint.map (distance · i)).getD 0 ≤ (hint.map (distance · j)).getD 0 := by
  rw [rank_occurs hint occurs, rank_occurs hint other, Prod.Lex.toLex_le_toLex]
  simp

theorem Located.occurs {hint : Option Range} (located : Located search targetLines sectionMatchThreshold exactMatch i hint) :
    Occurs search targetLines i :=
  ((candidate_exactMatch_iff (Nat.le_refl _)).mp located.candidate).1

theorem Nearest.closest (fits : hi ≤ targetLines.length)
    (nearest : Nearest (exactMatch search) (lines search).length sectionMatchThreshold targetLines (some range) lo hi i)
    (occurs : Occurs search targetLines j) (after : lo ≤ j) (inside : j + (lines search).length ≤ hi) :
    distance range i ≤ distance range j := by
  have here := ((candidate_exactMatch_iff fits).mp nearest.candidate).1
  have there := (candidate_exactMatch_iff fits).mpr ⟨occurs, after, inside⟩
  exact (rank_occurs_le (some range) here occurs).mp (nearest.highest j there)

theorem Located.first (located : Located search targetLines sectionMatchThreshold exactMatch i none) (before : j < i) :
    ¬ Occurs search targetLines j := by
  intro occurs
  have candidate := (candidate_exactMatch_iff (Nat.le_refl _)).mpr ⟨occurs, Nat.zero_le j, occurs.1⟩
  have lower := Nearest.first located j before candidate
  rw [rank_occurs none occurs, rank_occurs none located.occurs] at lower
  exact absurd lower (lt_irrefl _)

theorem Located.around (located : Located search targetLines sectionMatchThreshold exactMatch i (some range))
    (occurs : Occurs search targetLines j) (around : Around search targetLines range j) :
    Around search targetLines range i ∧ distance range i ≤ distance range j := by
  have fits : aroundStop targetLines range ≤ targetLines.length := aroundStop_le range
  rcases located with nearest | ⟨nowhere, -⟩
  · exact ⟨⟨nearest.candidate.after, nearest.candidate.inside⟩, nearest.closest fits occurs around.1 around.2⟩
  · exact absurd ((candidate_exactMatch_iff fits).mpr ⟨occurs, around⟩) (nowhere j)

theorem Located.anywhere (located : Located search targetLines sectionMatchThreshold exactMatch i (some range))
    (nowhere : ∀ j, Occurs search targetLines j → ¬ Around search targetLines range j) (occurs : Occurs search targetLines j) :
    distance range i ≤ distance range j := by
  have isHere := located.occurs
  rcases located with nearest | ⟨-, nearest⟩
  · exact absurd ⟨nearest.candidate.after, nearest.candidate.inside⟩ (nowhere i isHere)
  · exact nearest.closest (Nat.le_refl _) occurs (Nat.zero_le j) occurs.1

end Occurrences

section Blocks

variable {jaroWinkler : JaroWinkler} {diff : SearchAndReplace} {fileContent : Str} {i : ℕ}

def Unchanged (diff : SearchAndReplace) : Prop := diff.text = diff.replace ∨ Str.lines diff.replace = lines diff.text

instance : Decidable (Unchanged diff) := inferInstanceAs (Decidable (_ ∨ _))

/-- In a build of either kind, the lines that the text has at a place are replaced and nothing else. -/
def ReplacesAt (jaroWinkler : JaroWinkler) (diff : SearchAndReplace) (fileContent : Str) (i : ℕ) : Prop :=
  ∀ overflowChecks, ∃ failures, fuzzyMatchFileDiffs overflowChecks jaroWinkler [diff] fileContent =
    some (if Unchanged diff then [] else [⟨⟨i + 1, i + (lines diff.text).length + 1⟩, diff.replace⟩], failures)

/-- The place to replace: the one closest to the hint, or the first one. -/
structure Chosen (diff : SearchAndReplace) (targetLines : List Str) (i : ℕ) : Prop where
  occurs : Occurs diff.text targetLines i
  first : diff.lineRange = none → ∀ j < i, ¬ Occurs diff.text targetLines j
  closest : ∀ range, diff.lineRange = some range → ∀ j, Occurs diff.text targetLines j → distance range i ≤ distance range j

def HintSuffices (diff : SearchAndReplace) (targetLines : List Str) : Prop :=
  ∀ range, diff.lineRange = some range → (∃ j, Occurs diff.text targetLines j ∧ Around diff.text targetLines range j) →
    ∃ j, Occurs diff.text targetLines j ∧ Around diff.text targetLines range j ∧
      ∀ k, Occurs diff.text targetLines k → distance range j ≤ distance range k

variable {targetLines : List Str}

theorem hint_of_inFile (hinted : ∀ range, diff.lineRange = some range → inFile targetLines range = true) :
    diff.hint targetLines = diff.lineRange := by
  unfold SearchAndReplace.hint
  cases isRange : diff.lineRange with
  | none => rfl
  | some range => exact Option.filter_some_pos (hinted range isRange)

theorem fits_of_inFile (hinted : ∀ range, diff.lineRange = some range → inFile targetLines range = true) :
    diff.Fits := by
  intro overflows
  unfold endingNumber at overflows
  have isRange : ∃ start, diff.lineRange = some ⟨start, 0⟩ := by
    unfold SearchAndReplace.lineRange SearchAndReplace.parsed parseLineNumbers
    cases isFirst : ((Str.lines diff.search).map parseLineNumber).head? with
    | none => simp [isFirst] at overflows
    | some first =>
      cases isLast : ((Str.lines diff.search).map parseLineNumber).getLast? with
      | none => simp [isFirst, isLast] at overflows
      | some last =>
        obtain ⟨start, _⟩ := first
        obtain ⟨stop, _⟩ := last
        cases start with
        | none => simp [isFirst, isLast] at overflows
        | some start =>
          cases stop with
          | none => simp [isFirst, isLast] at overflows
          | some stop =>
            simp only [isFirst, isLast, Option.some.injEq] at overflows
            exact ⟨start, by simp only [isFirst, isLast, overflows]; rfl⟩
  obtain ⟨start, isRange⟩ := isRange
  have inside := hinted _ isRange
  simp [inFile] at inside

theorem matchedAtLine_located (occurs : ∃ i, Occurs diff.text targetLines i)
    (matched : MatchedAtLine jaroWinkler targetLines diff i) :
    Located diff.text targetLines sectionMatchThreshold exactMatch i (diff.hint targetLines) := by
  obtain ⟨j, occurs⟩ := occurs
  rcases matched with located | ⟨misses, -⟩
  · exact located
  · exact absurd ⟨j, (candidate_exactMatch_iff (Nat.le_refl _)).mpr ⟨occurs, Nat.zero_le j, occurs.1⟩⟩ misses

theorem appendUnmatchedLineSuffix_occurs {lastLine insertion : Str} (occurs : Occurs diff.text targetLines i)
    (isLast : targetLines[i + (lines diff.text).length - 1]? = some lastLine) :
    appendUnmatchedLineSuffix diff.text lastLine insertion = insertion := by
  have positive := length_lines_pos diff.text
  have size : (window targetLines (lines diff.text).length i).length = (lines diff.text).length := by rw [occurs.2]
  have position : i + ((lines diff.text).length - 1) = i + (lines diff.text).length - 1 := by omega
  have same : (lines diff.text).getLast? = some lastLine :=
    calc
      (lines diff.text).getLast? = (window targetLines (lines diff.text).length i).getLast? := by rw [occurs.2]
      _ = (window targetLines (lines diff.text).length i)[(lines diff.text).length - 1]? := by
        rw [List.getLast?_eq_getElem?, size]
      _ = some lastLine := by
        rw [window, List.getElem?_take_of_lt (by omega), List.getElem?_drop, position, isLast]
  have whole : unmatchedLineSuffix lastLine lastLine = none := by simp [unmatchedLineSuffix, isStrictTrimmedPrefix]
  unfold appendUnmatchedLineSuffix
  rw [same]
  simp only [whole]

theorem lineRange_ne_start (hinted : ∀ range, diff.lineRange = some range → inFile targetLines range = true) :
    diff.lineRange ≠ some ⟨0, 0⟩ := by
  intro isStart
  have inside := hinted _ isStart
  simp [inFile] at inside

theorem changesNothing_iff (notStart : diff.lineRange ≠ some ⟨0, 0⟩)
    (matched : MatchedAtLine jaroWinkler targetLines diff i) (occurs : Occurs diff.text targetLines i) :
    ChangesNothing jaroWinkler targetLines diff ↔ Unchanged diff := by
  constructor
  · rintro (same | ⟨-, j, other, identical⟩)
    · exact .inl same
    · rw [other.unique matched, occurs.2] at identical
      exact .inr identical
  · intro unchanged
    by_cases same : diff.text = diff.replace
    · exact .inl same
    · exact .inr ⟨⟨same, notStart⟩, i, matched, (unchanged.resolve_left same).trans occurs.2.symm⟩

theorem fuzzyMatchFileDiffs_occurs (jaroWinkler : JaroWinkler)
    (hinted : ∀ range, diff.lineRange = some range → inFile (lines fileContent) range = true)
    (occurs : ∃ i, Occurs diff.text (lines fileContent) i) :
    ∃ i, Located diff.text (lines fileContent) sectionMatchThreshold exactMatch i diff.lineRange ∧
      ReplacesAt jaroWinkler diff fileContent i := by
  have notStart := lineRange_ne_start hinted
  obtain ⟨i, matched⟩ : ∃ i, MatchedAtLine jaroWinkler (lines fileContent) diff i := by
    rcases @matchSearch_cases jaroWinkler (lines fileContent) diff false with ⟨i, matched, -⟩ | ⟨misses, -⟩
    · exact ⟨i, matched⟩
    · obtain ⟨j, isThere⟩ := occurs
      have found : Found diff.text (lines fileContent) sectionMatchThreshold exactMatch :=
        ⟨j, (candidate_exactMatch_iff (Nat.le_refl _)).mpr ⟨isThere, Nat.zero_le j, isThere.1⟩⟩
      exact absurd found (misses (sectionMatchThreshold, exactMatch) List.mem_cons_self)
  have located := matchedAtLine_located occurs matched
  refine ⟨i, hint_of_inFile hinted ▸ located, fun overflowChecks => ?_⟩
  obtain ⟨fresh, adds, step⟩ := @matchSearchAndReplace_eq jaroWinkler (lines fileContent) diff overflowChecks
    (parses_of_fits overflowChecks (fits_of_inFile hinted)) [] ⟨0, 0, 0⟩
  have small (counts : Prop) [Decidable counts] : 0 + (if counts then 1 else 0) < 2 ^ 8 := by
    split <;> decide
  rw [bump_eq overflowChecks (small _), Option.bind_some, bump_eq overflowChecks (small _), Option.bind_some,
    bump_eq overflowChecks (small _), Option.map_some] at step
  have isFresh : fresh = if Unchanged diff then [] else [⟨⟨i + 1, i + (lines diff.text).length + 1⟩, diff.replace⟩] := by
    have noop := changesNothing_iff notStart matched located.occurs
    cases adds with
    | nothing nothing => rw [if_pos (noop.mp nothing)]
    | missed missed =>
      obtain ⟨tier, member, found⟩ := MatchedBy.found matched
      exact absurd found (missed.2 tier member)
    | start _ start => exact absurd start notStart
    | matched _ other changes isLast =>
      rw [if_neg (mt noop.mpr changes), other.unique matched]
      rw [other.unique matched] at isLast
      rw [appendUnmatchedLineSuffix_occurs located.occurs isLast]
  rw [isFresh] at step
  exact ⟨_, by rw [fuzzyMatchFileDiffs, List.foldlM_cons, step]; rfl⟩

theorem ReplacesAt.unique {j : ℕ} (changes : ¬ Unchanged diff) (replaces : ReplacesAt jaroWinkler diff fileContent i)
    (other : ReplacesAt jaroWinkler diff fileContent j) : i = j := by
  obtain ⟨failures, ran⟩ := replaces true
  obtain ⟨otherFailures, otherRan⟩ := other true
  rw [ran, if_neg changes, if_neg changes] at otherRan
  simp only [Option.some.injEq, Prod.mk.injEq, List.cons.injEq, DiffDelta.mk.injEq, Range.mk.injEq] at otherRan
  omega

theorem exists_chosen (occurs : ∃ i, Occurs diff.text targetLines i) :
    ∃ i, Chosen diff targetLines i := by
  classical
  cases isHint : diff.lineRange with
  | none =>
    refine ⟨Nat.find occurs, Nat.find_spec occurs, fun _ j before => Nat.find_min occurs before, fun range isRange => ?_⟩
    rw [isHint] at isRange
    cases isRange
  | some range =>
    have distances : ∃ d i, Occurs diff.text targetLines i ∧ distance range i = d := by
      obtain ⟨i, isHere⟩ := occurs
      exact ⟨_, i, isHere, rfl⟩
    obtain ⟨i, isHere, shortest⟩ := Nat.find_spec distances
    refine ⟨i, isHere, fun isNone => ?_, fun other isRange j there => ?_⟩
    · rw [isHint] at isNone
      cases isNone
    · rw [isHint] at isRange
      rw [← Option.some.inj isRange, shortest]
      exact Nat.find_min' distances ⟨j, there, rfl⟩

theorem Located.chosen (located : Located diff.text targetLines sectionMatchThreshold exactMatch i diff.lineRange)
    (suffices' : HintSuffices diff targetLines) : Chosen diff targetLines i := by
  refine ⟨located.occurs, fun isNone j before => ?_, fun range isRange j there => ?_⟩
  · rw [isNone] at located
    exact located.first before
  · rw [isRange] at located
    by_cases around : ∃ j, Occurs diff.text targetLines j ∧ Around diff.text targetLines range j
    · obtain ⟨k, isThere, inside, closest⟩ := suffices' range isRange around
      exact Nat.le_trans (located.around isThere inside).2 (closest j there)
    · exact located.anywhere (fun k isThere inside => around ⟨k, isThere, inside⟩) there

theorem fuzzyMatchFileDiffs_exact_iff (jaroWinkler : JaroWinkler) (diff : SearchAndReplace) (fileContent : Str)
    (occurs : ∃ i, Occurs diff.text (lines fileContent) i)
    (hinted : ∀ range, diff.lineRange = some range → inFile (lines fileContent) range = true) :
    (∃ i, Chosen diff (lines fileContent) i ∧ ReplacesAt jaroWinkler diff fileContent i) ↔
      Unchanged diff ∨ HintSuffices diff (lines fileContent) := by
  obtain ⟨i, located, replaces⟩ := fuzzyMatchFileDiffs_occurs jaroWinkler hinted occurs
  constructor
  · rintro ⟨j, chosen, other⟩
    refine or_iff_not_imp_left.mpr fun changes range isRange ⟨k, isThere, inside⟩ => ?_
    rw [← replaces.unique changes other] at chosen
    rw [isRange] at located
    exact ⟨i, chosen.occurs, (located.around isThere inside).1, chosen.closest range isRange⟩
  · rintro (unchanged | suffices')
    · obtain ⟨j, chosen⟩ := exists_chosen occurs
      refine ⟨j, chosen, fun overflowChecks => ?_⟩
      obtain ⟨failures, ran⟩ := replaces overflowChecks
      rw [if_pos unchanged] at ran ⊢
      exact ⟨failures, ran⟩
    · exact ⟨i, located.chosen suffices', replaces⟩

theorem fuzzyMatchFileDiffs_exact_line :
    (∃ i, Chosen ⟨"1|x".toList, ['y']⟩ (lines ['x']) i ∧ ReplacesAt (fun _ _ => 0) ⟨"1|x".toList, ['y']⟩ ['x'] i) ↔
      Unchanged ⟨"1|x".toList, ['y']⟩ ∨ HintSuffices ⟨"1|x".toList, ['y']⟩ (lines ['x']) :=
  fuzzyMatchFileDiffs_exact_iff (fun _ _ => 0) ⟨"1|x".toList, ['y']⟩ ['x'] ⟨0, by decide +kernel⟩ <| by
    intro range isRange
    rw [show SearchAndReplace.lineRange ⟨"1|x".toList, ['y']⟩ = some ⟨1, 2⟩ by decide +kernel] at isRange
    cases isRange
    decide +kernel

/-- The block two lines before the hinted line is closer, but the lines that are looked at first have one three lines after it. -/
theorem fuzzyMatchFileDiffs_farther :
    SearchAndReplace.lineRange ⟨"5|x".toList, ['y']⟩ = some ⟨5, 6⟩ ∧ inFile (lines "a
a
x
a
a
a
a
x".toList) ⟨5, 6⟩ = true ∧
    Occurs (SearchAndReplace.text ⟨"5|x".toList, ['y']⟩) (lines "a
a
x
a
a
a
a
x".toList) 2 ∧
    ¬ ∃ i, Chosen ⟨"5|x".toList, ['y']⟩ (lines "a
a
x
a
a
a
a
x".toList) i ∧
      ReplacesAt (fun _ _ => 0) ⟨"5|x".toList, ['y']⟩ "a
a
x
a
a
a
a
x".toList i := by
  have hint : SearchAndReplace.lineRange ⟨"5|x".toList, ['y']⟩ = some ⟨5, 6⟩ := by decide +kernel
  have occurs : Occurs (SearchAndReplace.text ⟨"5|x".toList, ['y']⟩) (lines "a
a
x
a
a
a
a
x".toList) 2 := by
    decide +kernel
  refine ⟨hint, by decide +kernel, occurs, ?_⟩
  rintro ⟨i, chosen, replaces⟩
  obtain ⟨failures, ran⟩ := replaces true
  have replaced : (fuzzyMatchFileDiffs true (fun _ _ => 0) [⟨"5|x".toList, ['y']⟩] "a
a
x
a
a
a
a
x".toList).map Prod.fst =
      some [⟨⟨8, 9⟩, ['y']⟩] := by decide +kernel
  have changes : ¬ Unchanged ⟨"5|x".toList, ['y']⟩ := by decide +kernel
  rw [ran, if_neg changes] at replaced
  simp only [Option.map_some, Option.some.injEq, List.cons.injEq, DiffDelta.mk.injEq, Range.mk.injEq] at replaced
  have closest := chosen.closest ⟨5, 6⟩ hint 2 occurs
  unfold distance at closest
  simp only at closest
  omega

end Blocks

end Warp.Diff
