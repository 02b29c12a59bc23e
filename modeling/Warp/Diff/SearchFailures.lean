import Warp.Diff.SearchMatch

namespace Warp.Diff

open Str List Option

def endingNumber (search : Str) : Option ℕ :=
  let parsed := (Str.lines search).map parseLineNumber
  match parsed.head?, parsed.getLast? with
  | some first, some last =>
    match first.1, last.1 with
    | some _, some stop => some stop
    | _, _ => none
  | _, _ => none

namespace SearchAndReplace

def parsed (diff : SearchAndReplace) : Option Range × Str := (parseLineNumbers false diff.search).getD (none, [])

def lineRange (diff : SearchAndReplace) : Option Range := diff.parsed.1

def text (diff : SearchAndReplace) : Str := diff.parsed.2

def hint (diff : SearchAndReplace) (targetLines : List Str) : Option Range := diff.lineRange.filter (inFile targetLines)

/-- No line number is the last one of a word, so none overflows. -/
def Fits (diff : SearchAndReplace) : Prop := endingNumber diff.search ≠ some usizeMax

def Missing (diff : SearchAndReplace) : Prop := diff.lineRange = none ∧ diff.text ≠ []

instance (diff : SearchAndReplace) : Decidable diff.Fits := inferInstanceAs (Decidable (_ ≠ _))

instance (diff : SearchAndReplace) : Decidable diff.Missing := inferInstanceAs (Decidable (_ ∧ _))

end SearchAndReplace

section Cases

variable (jaroWinkler : JaroWinkler) (targetLines : List Str) (diff : SearchAndReplace)

def Sought : Prop := diff.text ≠ diff.replace ∧ diff.lineRange ≠ some ⟨0, 0⟩

def MatchedAtLine (i : ℕ) : Prop :=
  MatchedBy diff.text (diff.hint targetLines) targetLines i (searchTiers jaroWinkler (diff.hint targetLines))

def NotMatched : Prop :=
  Sought diff ∧ ∀ tier ∈ searchTiers jaroWinkler (diff.hint targetLines), ¬ Found diff.text targetLines tier.1 tier.2

/-- The text to insert is what was searched for, or what is there already. -/
def ChangesNothing : Prop :=
  diff.text = diff.replace ∨ Sought diff ∧ ∃ i, MatchedAtLine jaroWinkler targetLines diff i ∧
    Str.lines diff.replace = window targetLines (lines diff.text).length i

variable {jaroWinkler targetLines diff} {i : ℕ}

theorem hint_inFile : ∀ range ∈ diff.hint targetLines, inFile targetLines range = true :=
  fun _ isHint => (Option.filter_eq_some_iff.mp isHint).2

theorem matchSearch_cases (overflowChecks : Bool) :
    (∃ i, MatchedAtLine jaroWinkler targetLines diff i ∧
      matchSearch overflowChecks diff.text (diff.hint targetLines) targetLines
        (searchTiers jaroWinkler (diff.hint targetLines)) = some (some ⟨i + 1, i + (lines diff.text).length + 1⟩)) ∨
    (∀ tier ∈ searchTiers jaroWinkler (diff.hint targetLines), ¬ Found diff.text targetLines tier.1 tier.2) ∧
      matchSearch overflowChecks diff.text (diff.hint targetLines) targetLines
        (searchTiers jaroWinkler (diff.hint targetLines)) = some none :=
  matchSearch_spec overflowChecks hint_inFile _

theorem MatchedBy.found {search : Str} {range : Option Range} {tiers : List (ℚ × Scorer)}
    (matched : MatchedBy search range targetLines i tiers) : ∃ tier ∈ tiers, Found search targetLines tier.1 tier.2 := by
  induction tiers with
  | nil => exact matched.elim
  | cons tier tiers ih =>
    rcases matched with located | ⟨-, later⟩
    · exact ⟨tier, mem_cons_self, located.found⟩
    · obtain ⟨other, member, found⟩ := ih later
      exact ⟨other, mem_cons_of_mem _ member, found⟩

theorem matchSearch_eq_iff (overflowChecks : Bool) :
    matchSearch overflowChecks diff.text (diff.hint targetLines) targetLines
        (searchTiers jaroWinkler (diff.hint targetLines)) = some (some ⟨i + 1, i + (lines diff.text).length + 1⟩) ↔
      MatchedAtLine jaroWinkler targetLines diff i := by
  rcases @matchSearch_cases jaroWinkler targetLines diff overflowChecks with ⟨j, matched, isMatch⟩ | ⟨none', isMatch⟩
  · rw [isMatch]
    refine ⟨fun same => ?_, fun other => by rw [matched.unique other]⟩
    have same : j = i := by simpa using same
    exact same ▸ matched
  · rw [isMatch]
    refine ⟨(fun same => nomatch same), fun matched => ?_⟩
    obtain ⟨tier, member, found⟩ := MatchedBy.found matched
    exact absurd found (none' tier member)

theorem matchSearch_none_iff (overflowChecks : Bool) :
    matchSearch overflowChecks diff.text (diff.hint targetLines) targetLines
        (searchTiers jaroWinkler (diff.hint targetLines)) = some none ↔
      ∀ tier ∈ searchTiers jaroWinkler (diff.hint targetLines), ¬ Found diff.text targetLines tier.1 tier.2 := by
  rcases @matchSearch_cases jaroWinkler targetLines diff overflowChecks with ⟨j, matched, isMatch⟩ | ⟨none', isMatch⟩
  · rw [isMatch]
    refine ⟨(fun same => nomatch same), fun none' => ?_⟩
    obtain ⟨tier, member, found⟩ := MatchedBy.found matched
    exact absurd found (none' tier member)
  · exact ⟨fun _ => none', fun _ => isMatch⟩

end Cases

section Decisions

variable (jaroWinkler : JaroWinkler) (targetLines : List Str) (diff : SearchAndReplace)

instance : Decidable (Sought diff) := inferInstanceAs (Decidable (_ ∧ _))

instance (i : ℕ) : Decidable (MatchedAtLine jaroWinkler targetLines diff i) := decidable_of_iff _ (matchSearch_eq_iff false)

instance : Decidable (NotMatched jaroWinkler targetLines diff) :=
  decidable_of_iff (Sought diff ∧ matchSearch false diff.text (diff.hint targetLines) targetLines
    (searchTiers jaroWinkler (diff.hint targetLines)) = some none) (and_congr_right fun _ => matchSearch_none_iff false)

instance : Decidable (ChangesNothing jaroWinkler targetLines diff) :=
  decidable_of_iff (diff.text = diff.replace ∨ Sought diff ∧ ∃ i < targetLines.length + 1,
      MatchedAtLine jaroWinkler targetLines diff i ∧ Str.lines diff.replace = window targetLines (lines diff.text).length i) <| by
    refine or_congr_right (and_congr_right fun _ => exists_congr fun i => ⟨And.right, fun both => ⟨?_, both⟩⟩)
    have inside := both.1.candidate
    omega

end Decisions

section Steps

variable {jaroWinkler : JaroWinkler} {targetLines : List Str} {diff : SearchAndReplace} {overflowChecks : Bool}

theorem incrementWord_eq (overflowChecks : Bool) (number : ℕ) :
    incrementWord overflowChecks number =
      if overflowChecks = true ∧ number = usizeMax then none else incrementWord false number := by
  simp [incrementWord]

theorem parseLineNumbers_eq (overflowChecks : Bool) :
    parseLineNumbers overflowChecks diff.search =
      if overflowChecks = true ∧ ¬ diff.Fits then none else some diff.parsed := by
  unfold SearchAndReplace.parsed SearchAndReplace.Fits parseLineNumbers endingNumber
  cases isFirst : ((Str.lines diff.search).map parseLineNumber).head? with
  | none => simp [isFirst]
  | some first =>
    cases isLast : ((Str.lines diff.search).map parseLineNumber).getLast? with
    | none => simp [isFirst, isLast]
    | some last =>
      obtain ⟨start, _⟩ := first
      obtain ⟨stop, _⟩ := last
      cases start with
      | none => simp [isFirst, isLast]
      | some start =>
        cases stop with
        | none => simp [isFirst, isLast]
        | some stop =>
          simp only [isFirst, isLast, incrementWord_eq overflowChecks, ne_eq, Option.some.injEq, not_not]
          by_cases last : overflowChecks = true ∧ stop = usizeMax
          · rw [if_pos last, if_pos last]
            rfl
          · rw [if_neg last, if_neg last]
            simp [incrementWord]

theorem findSearch_cases (overflowChecks : Bool) (sought : Sought diff) :
    (∃ i, MatchedAtLine jaroWinkler targetLines diff i ∧
      findSearch overflowChecks jaroWinkler targetLines diff.lineRange diff.text =
        some (some ⟨i + 1, i + (lines diff.text).length + 1⟩)) ∨
    NotMatched jaroWinkler targetLines diff ∧
      findSearch overflowChecks jaroWinkler targetLines diff.lineRange diff.text = some none := by
  unfold findSearch
  rw [if_neg sought.2]
  rcases @matchSearch_cases jaroWinkler targetLines diff overflowChecks with found | ⟨none', isMatch⟩
  · exact .inl found
  · exact .inr ⟨⟨sought, none'⟩, isMatch⟩

theorem isIdentical_matched {i : ℕ} (matched : MatchedAtLine jaroWinkler targetLines diff i) :
    isIdentical targetLines ⟨i + 1, i + (lines diff.text).length + 1⟩ diff.replace =
      some (decide (Str.lines diff.replace = window targetLines (lines diff.text).length i)) := by
  have inside := matched.candidate
  have isSlice : slice targetLines i (i + (lines diff.text).length) = some (window targetLines (lines diff.text).length i) := by
    rw [slice, if_pos ⟨Nat.le_add_right _ _, inside⟩, drop_take, Nat.add_sub_cancel_left]
    rfl
  rw [isIdentical, if_neg (by simp), Checked.sub_eq (Nat.le_add_left 1 i), Checked.sub_eq (Nat.le_add_left 1 _)]
  show (slice targetLines i (i + (lines diff.text).length)).bind _ = _
  rw [isSlice]
  rfl

theorem insertionFor_matched {i : ℕ} (matched : MatchedAtLine jaroWinkler targetLines diff i) :
    ∃ lastLine, targetLines[i + (lines diff.text).length - 1]? = some lastLine ∧
      insertionFor diff.text targetLines ⟨i + 1, i + (lines diff.text).length + 1⟩ diff.replace =
        some (appendUnmatchedLineSuffix diff.text lastLine diff.replace) := by
  have inside := matched.candidate
  have positive := length_lines_pos diff.text
  have isLast : targetLines[i + (lines diff.text).length - 1]? = some targetLines[i + (lines diff.text).length - 1] :=
    List.getElem?_eq_getElem (by omega)
  refine ⟨_, isLast, ?_⟩
  rw [insertionFor, if_pos (show 2 ≤ i + (lines diff.text).length + 1 by omega)]
  show (targetLines[i + (lines diff.text).length - 1]?).bind _ = _
  rw [isLast]
  rfl

theorem ChangesNothing.not_notMatched (noop : ChangesNothing jaroWinkler targetLines diff) :
    ¬ NotMatched jaroWinkler targetLines diff := by
  rintro ⟨sought, none'⟩
  rcases noop with same | ⟨-, i, matched, -⟩
  · exact sought.1 same
  · obtain ⟨tier, member, found⟩ := MatchedBy.found matched
    exact none' tier member found

inductive Adds (jaroWinkler : JaroWinkler) (targetLines : List Str) (diff : SearchAndReplace) : List DiffDelta → Prop
  | nothing (noop : ChangesNothing jaroWinkler targetLines diff) : Adds jaroWinkler targetLines diff []
  | missed (missed : NotMatched jaroWinkler targetLines diff) : Adds jaroWinkler targetLines diff []
  | start (differs : diff.text ≠ diff.replace) (start : diff.lineRange = some ⟨0, 0⟩) :
    Adds jaroWinkler targetLines diff [⟨⟨0, 0⟩, diff.replace⟩]
  | matched {i : ℕ} {lastLine : Str} (sought : Sought diff) (matched : MatchedAtLine jaroWinkler targetLines diff i)
    (changes : ¬ ChangesNothing jaroWinkler targetLines diff)
    (isLast : targetLines[i + (lines diff.text).length - 1]? = some lastLine) :
    Adds jaroWinkler targetLines diff
      [⟨⟨i + 1, i + (lines diff.text).length + 1⟩, appendUnmatchedLineSuffix diff.text lastLine diff.replace⟩]

def SearchAndReplace.replaceText (overflowChecks : Bool) (jaroWinkler : JaroWinkler) (targetLines : List Str)
    (deltas : List DiffDelta) (failures : DiffMatchFailures) (diff : SearchAndReplace) :
    Option (List DiffDelta × DiffMatchFailures) :=
  let noop := (increment overflowChecks failures.noopDeltas).map fun count => (deltas, { failures with noopDeltas := count })
  if diff.text = diff.replace then noop
  else
    (findSearch overflowChecks jaroWinkler targetLines diff.lineRange diff.text).bind fun
      | some range => (isIdentical targetLines range diff.replace).bind fun identical =>
        if identical then noop
        else (insertionFor diff.text targetLines range diff.replace).bind fun insertion =>
          some (deltas ++ [⟨range, insertion⟩], failures)
      | none => (increment overflowChecks failures.fuzzyMatchFailures).bind fun count =>
        some (deltas, { failures with fuzzyMatchFailures := count })

theorem matchSearchAndReplace_eq (parses : parseLineNumbers overflowChecks diff.search = some diff.parsed)
    (deltas : List DiffDelta) (failures : DiffMatchFailures) :
    ∃ fresh, Adds jaroWinkler targetLines diff fresh ∧ matchSearchAndReplace overflowChecks jaroWinkler targetLines (deltas, failures) diff =
      (bump overflowChecks diff.Missing failures.missingLineNumbers).bind fun missing =>
      (bump overflowChecks (ChangesNothing jaroWinkler targetLines diff) failures.noopDeltas).bind fun noops =>
      (bump overflowChecks (NotMatched jaroWinkler targetLines diff) failures.fuzzyMatchFailures).map fun misses =>
        (deltas ++ fresh, ⟨misses, noops, missing⟩) := by
  suffices rest : ∃ fresh : List DiffDelta, Adds jaroWinkler targetLines diff fresh ∧ ∀ missing,
      diff.replaceText overflowChecks jaroWinkler targetLines deltas { failures with missingLineNumbers := missing } =
      (bump overflowChecks (ChangesNothing jaroWinkler targetLines diff) failures.noopDeltas).bind fun noops =>
      (bump overflowChecks (NotMatched jaroWinkler targetLines diff) failures.fuzzyMatchFailures).map fun misses =>
        (deltas ++ fresh, ⟨misses, noops, missing⟩) by
    obtain ⟨fresh, adds, rest⟩ := rest
    refine ⟨fresh, adds, ?_⟩
    unfold matchSearchAndReplace
    rw [parses]
    show (bump overflowChecks diff.Missing failures.missingLineNumbers).bind _ = _
    congr 1
    funext missing
    rw [← rest missing]
    rfl
  by_cases same : diff.text = diff.replace
  · have noop : ChangesNothing jaroWinkler targetLines diff := .inl same
    refine ⟨[], .nothing noop, fun missing => ?_⟩
    rw [bump, if_pos noop, bump, if_neg noop.not_notMatched, append_nil]
    simp only [SearchAndReplace.replaceText, if_pos same]
    exact map_eq_bind
  by_cases start : diff.lineRange = some ⟨0, 0⟩
  · have unsought : ¬ Sought diff := fun sought => sought.2 start
    have changes : ¬ ChangesNothing jaroWinkler targetLines diff := fun noop =>
      noop.elim same fun both => unsought both.1
    have found : ¬ NotMatched jaroWinkler targetLines diff := fun missed => unsought missed.1
    have isStart : findSearch overflowChecks jaroWinkler targetLines diff.lineRange diff.text = some (some ⟨0, 0⟩) := by
      rw [findSearch, if_pos start, start]
    refine ⟨[⟨⟨0, 0⟩, diff.replace⟩], .start same start, fun missing => ?_⟩
    rw [bump, if_neg changes, bump, if_neg found]
    simp only [SearchAndReplace.replaceText, if_neg same, isStart]
    rfl
  have sought : Sought diff := ⟨same, start⟩
  rcases @findSearch_cases jaroWinkler targetLines diff overflowChecks sought with ⟨i, matched, isMatch⟩ | ⟨missed, isMatch⟩
  · have found : ¬ NotMatched jaroWinkler targetLines diff := by
      rintro ⟨-, none'⟩
      obtain ⟨tier, member, found⟩ := MatchedBy.found matched
      exact none' tier member found
    by_cases identical : Str.lines diff.replace = window targetLines (lines diff.text).length i
    · have noop : ChangesNothing jaroWinkler targetLines diff := .inr ⟨sought, i, matched, identical⟩
      refine ⟨[], .nothing noop, fun missing => ?_⟩
      rw [bump, if_pos noop, bump, if_neg found, append_nil]
      simp only [SearchAndReplace.replaceText, if_neg same, isMatch, bind_some, isIdentical_matched matched, identical, decide_true, if_true]
      exact map_eq_bind
    · have changes : ¬ ChangesNothing jaroWinkler targetLines diff := by
        rintro (noop | ⟨-, j, other, noop⟩)
        · exact same noop
        · exact identical (matched.unique other ▸ noop)
      obtain ⟨lastLine, isLast, insertion⟩ := insertionFor_matched matched
      refine ⟨[⟨⟨i + 1, i + (lines diff.text).length + 1⟩, appendUnmatchedLineSuffix diff.text lastLine diff.replace⟩],
        .matched sought matched changes isLast, fun missing => ?_⟩
      rw [bump, if_neg changes, bump, if_neg found]
      simp only [SearchAndReplace.replaceText, if_neg same, isMatch, bind_some, isIdentical_matched matched, identical, decide_false, insertion]
      rfl
  · have changes : ¬ ChangesNothing jaroWinkler targetLines diff := fun noop => noop.not_notMatched missed
    refine ⟨[], .missed missed, fun missing => ?_⟩
    rw [bump, if_neg changes, bump, if_pos missed, append_nil]
    simp only [SearchAndReplace.replaceText, if_neg same, isMatch, bind_some]
    exact Option.map_eq_bind.symm

end Steps

section Runs

variable {jaroWinkler : JaroWinkler} {targetLines : List Str} {diff : SearchAndReplace} {diffs : List SearchAndReplace}

theorem bump_eq (overflowChecks : Bool) {counts : Prop} [Decidable counts] {count : ℕ}
    (room : count + (if counts then 1 else 0) < 2 ^ 8) :
    bump overflowChecks counts count = some (count + if counts then 1 else 0) := by
  unfold bump
  by_cases isCounted : counts
  · rw [if_pos isCounted] at room ⊢
    rw [if_pos isCounted, increment, if_neg (by simp; omega), Nat.mod_eq_of_lt room]
  · rw [if_neg isCounted, if_neg isCounted, Nat.add_zero]

theorem bump_checked {counts : Prop} [Decidable counts] {count next : ℕ} (small : count < 2 ^ 8)
    (bumped : bump true counts count = some next) : next = count + (if counts then 1 else 0) ∧ next < 2 ^ 8 := by
  unfold bump at bumped
  by_cases isCounted : counts
  · rw [if_pos isCounted] at bumped ⊢
    unfold increment at bumped
    split at bumped
    · cases bumped
    · rename_i room
      have room : count ≠ 2 ^ 8 - 1 := by simpa using room
      have next := (Option.some.inj bumped).symm
      omega
  · rw [if_neg isCounted] at bumped ⊢
    have next := (Option.some.inj bumped).symm
    omega

/-- No line number overflows, and of each kind there are less diffs than a counter of eight bits can count, from what it has counted
already. -/
structure CountableFrom (jaroWinkler : JaroWinkler) (targetLines : List Str) (failures : DiffMatchFailures)
    (diffs : List SearchAndReplace) : Prop where
  fits : ∀ diff ∈ diffs, diff.Fits
  missing : failures.missingLineNumbers + diffs.countP (·.Missing) < 2 ^ 8
  noops : failures.noopDeltas + diffs.countP (ChangesNothing jaroWinkler targetLines ·) < 2 ^ 8
  misses : failures.fuzzyMatchFailures + diffs.countP (NotMatched jaroWinkler targetLines ·) < 2 ^ 8

theorem parses_of_fits (overflowChecks : Bool) (fits : diff.Fits) :
    parseLineNumbers overflowChecks diff.search = some diff.parsed := by
  rw [parseLineNumbers_eq, if_neg fun both => both.2 fits]

theorem foldlM_countable (overflowChecks : Bool) {deltas : List DiffDelta} {failures : DiffMatchFailures}
    (countable : CountableFrom jaroWinkler targetLines failures diffs) :
    ∃ final, diffs.foldlM (matchSearchAndReplace overflowChecks jaroWinkler targetLines) (deltas, failures) =
      some (final, ⟨failures.fuzzyMatchFailures + diffs.countP (NotMatched jaroWinkler targetLines ·),
        failures.noopDeltas + diffs.countP (ChangesNothing jaroWinkler targetLines ·),
        failures.missingLineNumbers + diffs.countP (·.Missing)⟩) := by
  induction diffs generalizing deltas failures with
  | nil => exact ⟨deltas, rfl⟩
  | cons diff diffs ih =>
    obtain ⟨fits, missing, noops, misses⟩ := countable
    obtain ⟨first, fits⟩ := List.forall_mem_cons.mp fits
    simp only [countP_cons, decide_eq_true_eq] at missing noops misses ⊢
    obtain ⟨fresh, -, step⟩ := @matchSearchAndReplace_eq jaroWinkler targetLines diff overflowChecks
      (parses_of_fits overflowChecks first) deltas failures
    rw [bump_eq overflowChecks (by omega), bind_some, bump_eq overflowChecks (by omega), bind_some,
      bump_eq overflowChecks (by omega), map_some] at step
    obtain ⟨final, ran⟩ := @ih (deltas ++ fresh)
      ⟨failures.fuzzyMatchFailures + (if NotMatched jaroWinkler targetLines diff then 1 else 0),
        failures.noopDeltas + (if ChangesNothing jaroWinkler targetLines diff then 1 else 0),
        failures.missingLineNumbers + (if diff.Missing then 1 else 0)⟩
      ⟨fits, by simp only; omega, by simp only; omega, by simp only; omega⟩
    refine ⟨final, ?_⟩
    rw [foldlM_cons, step]
    refine ran.trans ?_
    simp only [Option.some.injEq, Prod.mk.injEq, DiffMatchFailures.mk.injEq, true_and]
    omega

theorem countable_of_foldlM {deltas : List DiffDelta} {failures : DiffMatchFailures} {final : List DiffDelta × DiffMatchFailures}
    (missesSmall : failures.fuzzyMatchFailures < 2 ^ 8) (noopsSmall : failures.noopDeltas < 2 ^ 8)
    (missingSmall : failures.missingLineNumbers < 2 ^ 8)
    (ran : diffs.foldlM (matchSearchAndReplace true jaroWinkler targetLines) (deltas, failures) = some final) :
    CountableFrom jaroWinkler targetLines failures diffs := by
  induction diffs generalizing deltas failures with
  | nil => exact ⟨fun _ member => absurd member not_mem_nil, missingSmall, noopsSmall, missesSmall⟩
  | cons diff diffs ih =>
    rw [foldlM_cons] at ran
    obtain ⟨⟨nextDeltas, nextFailures⟩, stepped, ran⟩ := Option.bind_eq_some_iff.mp ran
    have fits : diff.Fits := by
      by_contra overflows
      have none' : matchSearchAndReplace true jaroWinkler targetLines (deltas, failures) diff = none := by
        unfold matchSearchAndReplace
        rw [parseLineNumbers_eq, if_pos ⟨rfl, overflows⟩]
        rfl
      rw [none'] at stepped
      cases stepped
    obtain ⟨fresh, -, step⟩ := @matchSearchAndReplace_eq jaroWinkler targetLines diff true (parses_of_fits true fits) deltas failures
    rw [step] at stepped
    obtain ⟨missing, isMissing, stepped⟩ := Option.bind_eq_some_iff.mp stepped
    obtain ⟨noops, isNoop, stepped⟩ := Option.bind_eq_some_iff.mp stepped
    obtain ⟨misses, isMissed, same⟩ := Option.map_eq_some_iff.mp stepped
    cases same
    obtain ⟨isMissing, missingNext⟩ := bump_checked missingSmall isMissing
    obtain ⟨isNoop, noopsNext⟩ := bump_checked noopsSmall isNoop
    obtain ⟨isMissed, missesNext⟩ := bump_checked missesSmall isMissed
    obtain ⟨laterFits, laterMissing, laterNoops, laterMisses⟩ := @ih _ ⟨misses, noops, missing⟩ missesNext noopsNext missingNext ran
    simp only at laterMissing laterNoops laterMisses
    refine ⟨List.forall_mem_cons.mpr ⟨fits, laterFits⟩, ?_, ?_, ?_⟩ <;>
      simp only [countP_cons, decide_eq_true_eq] <;> omega

def Countable (jaroWinkler : JaroWinkler) (targetLines : List Str) (diffs : List SearchAndReplace) : Prop :=
  CountableFrom jaroWinkler targetLines ⟨0, 0, 0⟩ diffs

/-- In a build of either kind nothing panics, and the result tells of a diff that was not matched. -/
def Reports (jaroWinkler : JaroWinkler) (fileName : Str) (diffs : List SearchAndReplace) (fileContent : Str) : Prop :=
  ∀ overflowChecks, ∃ result, fuzzyMatchDiffs overflowChecks jaroWinkler fileName diffs fileContent = some result ∧
    ((∃ diff ∈ diffs, NotMatched jaroWinkler (lines fileContent) diff) → result.warrantsFailure = true)

theorem fuzzyMatchDiffs_reports_iff (jaroWinkler : JaroWinkler) (fileName : Str) (diffs : List SearchAndReplace)
    (fileContent : Str) :
    Reports jaroWinkler fileName diffs fileContent ↔ Countable jaroWinkler (lines fileContent) diffs := by
  constructor
  · intro reports
    obtain ⟨result, ran, -⟩ := reports true
    obtain ⟨final, ran, -⟩ := Option.bind_eq_some_iff.mp ran
    exact countable_of_foldlM (by decide) (by decide) (by decide) ran
  · intro countable overflowChecks
    obtain ⟨deltas, ran⟩ := @foldlM_countable jaroWinkler (lines fileContent) diffs overflowChecks [] ⟨0, 0, 0⟩ countable
    refine ⟨_, Option.bind_eq_some_iff.mpr ⟨_, ran, rfl⟩, fun ⟨diff, member, missed⟩ => ?_⟩
    have counted : 0 < diffs.countP (NotMatched jaroWinkler (lines fileContent) ·) :=
      List.countP_pos_iff.mpr ⟨diff, member, decide_eq_true missed⟩
    have isFailure : 0 < 0 + diffs.countP (NotMatched jaroWinkler (lines fileContent) ·) := by omega
    simp only [AIRequestedCodeDiff.warrantsFailure, surfaced, if_pos (Or.inl isFailure), decide_eq_true isFailure,
      Bool.true_or]

/-- Diffs that are not matched, one more than a counter can count, are reported as applied; the largest line number overflows. -/
theorem fuzzyMatchDiffs_hides :
    (fuzzyMatchDiffs false (fun a b => if a = b then 1 else 0) ['f'] (.replicate 256 ⟨"1|a".toList, ['b']⟩) ['c']).map
      (·.warrantsFailure) = some false ∧
    NotMatched (fun a b => if a = b then 1 else 0) (lines ['c']) ⟨"1|a".toList, ['b']⟩ ∧
    fuzzyMatchDiffs true (fun a b => if a = b then 1 else 0) ['f'] [⟨"18446744073709551615|a".toList, ['b']⟩] ['c'] = none := by
  refine ⟨by decide +kernel, by decide +kernel, by decide +kernel⟩

end Runs

end Warp.Diff
