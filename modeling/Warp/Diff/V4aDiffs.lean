import Warp.Diff.V4aMatch

namespace Warp.Diff

open Str List

variable {jaroWinkler : JaroWinkler} {edit : V4AHunk} {diffs : List V4AHunk} {fileLines : List Str} {w : ℕ}
  {overflowChecks : Bool}

/-- Nothing follows the pattern, whose blank last line lies after the end of the file. -/
def CutShort (jaroWinkler : JaroWinkler) (fileLines : List Str) (edit : V4AHunk) : Prop :=
  edit.postContextLines = [] ∧ edit.BlankTail ∧
    MatchedAt jaroWinkler fileLines edit (fileLines.length + 1 - edit.pattern.length)

/-- The lines that a hunk with its window after `w` lines replaces. -/
def replacedLines (fileLines : List Str) (edit : V4AHunk) (w : ℕ) : List Str :=
  window fileLines edit.oldLines.length (w + edit.preContextLines.length)

def Noop (jaroWinkler : JaroWinkler) (fileLines : List Str) (edit : V4AHunk) : Prop :=
  edit.old = edit.new ∨
    ∃ w < fileLines.length + 1, MatchedAt jaroWinkler fileLines edit w ∧ edit.new = join (replacedLines fileLines edit w)

def Unmatched (jaroWinkler : JaroWinkler) (fileLines : List Str) (edit : V4AHunk) : Prop :=
  edit.old ≠ edit.new ∧ ∀ w < fileLines.length + 1, ¬MatchedAt jaroWinkler fileLines edit w

instance : Decidable (CutShort jaroWinkler fileLines edit) := inferInstanceAs (Decidable (_ ∧ _ ∧ _))

instance : Decidable (Noop jaroWinkler fileLines edit) :=
  inferInstanceAs (Decidable (_ ∨ ∃ w < fileLines.length + 1, _ ∧ _))

instance : Decidable (Unmatched jaroWinkler fileLines edit) :=
  inferInstanceAs (Decidable (_ ∧ ∀ w < fileLines.length + 1, _))

theorem MatchedAt.lt (matched : MatchedAt jaroWinkler fileLines edit w) : w < fileLines.length + 1 := by
  rcases matched.inside with within | ⟨blank, within⟩
  · omega
  · have := blank.1
    omega

theorem MatchedAt.replaced_inside_iff (matched : MatchedAt jaroWinkler fileLines edit w) :
    w + edit.preContextLines.length + edit.oldLines.length ≤ fileLines.length ↔
      ¬CutShort jaroWinkler fileLines edit := by
  have parts := edit.length_pattern
  constructor
  · rintro within ⟨nothingAfter, blank, atEnd⟩
    have same := matched.unique atEnd
    have long := blank.1
    have := matched.inside
    rw [nothingAfter] at parts
    simp only [length_nil] at parts
    omega
  · intro notCut
    rcases matched.inside with within | ⟨blank, within⟩
    · omega
    · by_cases nothingAfter : edit.postContextLines = []
      · refine absurd ⟨nothingAfter, blank, ?_⟩ notCut
        have same : fileLines.length + 1 - edit.pattern.length = w := by omega
        rw [same]
        exact matched
      · have := List.length_pos_iff.mpr nothingAfter
        omega

/-- What holds of a delta and the hunk it is made from: its range lies in the file and, where the pattern occurs
exactly at the window, covers the old lines of the window. -/
structure Emitted (jaroWinkler : JaroWinkler) (fileLines : List Str) (edit : V4AHunk) (delta : DiffDelta) : Prop where
  insertion : delta.insertion = edit.new
  bounds : 1 ≤ delta.replacementLineRange.start ∧
    delta.replacementLineRange.start ≤ delta.replacementLineRange.stop ∧
    delta.replacementLineRange.stop ≤ fileLines.length + 1
  covers : ∃ w, MatchedAt jaroWinkler fileLines edit w ∧
    (window fileLines edit.pattern.length w = edit.pattern →
      delta.replacementLineRange.start = w + edit.preContextLines.length + 1 ∧
      delta.replacementLineRange.stop = delta.replacementLineRange.start + edit.oldLines.length ∧
      window fileLines edit.oldLines.length (delta.replacementLineRange.start - 1) = edit.oldLines)

theorem window_oldLines (occurs : window fileLines edit.pattern.length w = edit.pattern) :
    replacedLines fileLines edit w = edit.oldLines := by
  unfold replacedLines window
  unfold window at occurs
  have parts := edit.length_pattern
  have dropped := congrArg (fun lines => (lines.drop edit.preContextLines.length).take edit.oldLines.length) occurs
  rw [drop_take, take_take, drop_drop, Nat.min_eq_left (by omega)] at dropped
  rw [dropped]
  unfold V4AHunk.pattern
  rw [append_assoc, drop_left, take_left]

theorem matchHunk_noop_of_same (same : edit.old = edit.new) (deltas : List DiffDelta) (failures : DiffMatchFailures) :
    matchHunk overflowChecks jaroWinkler fileLines (deltas, failures) edit =
      (increment overflowChecks failures.noopDeltas).map fun count =>
        (deltas, { failures with noopDeltas := count }) := by
  unfold matchHunk
  exact if_pos same

theorem matchHunk_matched (differs : edit.old ≠ edit.new) (matched : MatchedAt jaroWinkler fileLines edit w)
    (deltas : List DiffDelta) (failures : DiffMatchFailures) :
    matchHunk overflowChecks jaroWinkler fileLines (deltas, failures) edit =
      if CutShort jaroWinkler fileLines edit then none
      else if edit.new = join (replacedLines fileLines edit w) then
        (increment overflowChecks failures.noopDeltas).map fun count =>
          (deltas, { failures with noopDeltas := count })
      else some (deltas ++ [⟨⟨w + edit.preContextLines.length + 1,
        w + edit.preContextLines.length + edit.oldLines.length + 1⟩, edit.new⟩], failures) := by
  rcases findV4aMatch_spec overflowChecks jaroWinkler edit fileLines with ⟨v, other, found⟩ | ⟨-, none⟩
  · rw [other.unique matched] at found
    unfold matchHunk
    dsimp only
    rw [if_neg differs, found]
    change (slice fileLines (w + edit.preContextLines.length)
      (w + edit.preContextLines.length + edit.oldLines.length)).bind _ = _
    unfold slice
    by_cases cut : CutShort jaroWinkler fileLines edit
    · rw [if_pos cut, if_neg fun inside => matched.replaced_inside_iff.mp inside.2 cut]
      rfl
    · rw [if_neg cut, if_pos ⟨Nat.le_add_right _ _, matched.replaced_inside_iff.mpr cut⟩, Option.bind_some]
      have content : (fileLines.take (w + edit.preContextLines.length + edit.oldLines.length)).drop
          (w + edit.preContextLines.length) = replacedLines fileLines edit w := by
        unfold replacedLines window
        rw [drop_take, Nat.add_sub_cancel_left]
      rw [content]
  · exact absurd matched (none w)

theorem matchHunk_unmatched (differs : edit.old ≠ edit.new) (none : ∀ w, ¬MatchedAt jaroWinkler fileLines edit w)
    (deltas : List DiffDelta) (failures : DiffMatchFailures) :
    matchHunk overflowChecks jaroWinkler fileLines (deltas, failures) edit =
      (increment overflowChecks failures.fuzzyMatchFailures).map fun count =>
        (deltas, { failures with fuzzyMatchFailures := count }) := by
  rcases findV4aMatch_spec overflowChecks jaroWinkler edit fileLines with ⟨v, other, -⟩ | ⟨found, -⟩
  · exact absurd other (none v)
  · unfold matchHunk
    dsimp only
    rw [if_neg differs, found]
    change (increment overflowChecks failures.fuzzyMatchFailures).bind _ = _
    cases increment overflowChecks failures.fuzzyMatchFailures <;> rfl

theorem matchHunk_cases (overflowChecks : Bool) (jaroWinkler : JaroWinkler) (fileLines : List Str) (edit : V4AHunk)
    (deltas : List DiffDelta) (failures : DiffMatchFailures) :
    edit.old ≠ edit.new ∧ CutShort jaroWinkler fileLines edit ∧
      matchHunk overflowChecks jaroWinkler fileLines (deltas, failures) edit = none ∨
    ¬(edit.old ≠ edit.new ∧ CutShort jaroWinkler fileLines edit) ∧
      (Noop jaroWinkler fileLines edit ∧ ¬Unmatched jaroWinkler fileLines edit ∧
        matchHunk overflowChecks jaroWinkler fileLines (deltas, failures) edit =
          (increment overflowChecks failures.noopDeltas).map (fun count =>
            (deltas, { failures with noopDeltas := count })) ∨
      ¬Noop jaroWinkler fileLines edit ∧ Unmatched jaroWinkler fileLines edit ∧
        matchHunk overflowChecks jaroWinkler fileLines (deltas, failures) edit =
          (increment overflowChecks failures.fuzzyMatchFailures).map (fun count =>
            (deltas, { failures with fuzzyMatchFailures := count })) ∨
      ¬Noop jaroWinkler fileLines edit ∧ ¬Unmatched jaroWinkler fileLines edit ∧
        ∃ delta, Emitted jaroWinkler fileLines edit delta ∧
          matchHunk overflowChecks jaroWinkler fileLines (deltas, failures) edit = some (deltas ++ [delta], failures)) := by
  by_cases same : edit.old = edit.new
  · refine .inr ⟨fun cut => cut.1 same, .inl ⟨.inl same, fun unmatched => unmatched.1 same, ?_⟩⟩
    exact matchHunk_noop_of_same same deltas failures
  · by_cases anywhere : ∃ w, MatchedAt jaroWinkler fileLines edit w
    · obtain ⟨w, matched⟩ := anywhere
      have step := @matchHunk_matched _ _ _ _ overflowChecks same matched deltas failures
      have isMatched : ¬Unmatched jaroWinkler fileLines edit := fun unmatched => unmatched.2 w matched.lt matched
      by_cases cut : CutShort jaroWinkler fileLines edit
      · rw [if_pos cut] at step
        exact .inl ⟨same, cut, step⟩
      · rw [if_neg cut] at step
        refine .inr ⟨fun both => cut both.2, ?_⟩
        by_cases unchanged : edit.new = join (replacedLines fileLines edit w)
        · rw [if_pos unchanged] at step
          exact .inl ⟨.inr ⟨w, matched.lt, matched, unchanged⟩, isMatched, step⟩
        · rw [if_neg unchanged] at step
          have inside := matched.replaced_inside_iff.mpr cut
          refine .inr (.inr ⟨?_, isMatched, _, ⟨rfl, ?_, w, matched, ?_⟩, step⟩)
          · rintro (unedited | ⟨v, -, other, unchangedThere⟩)
            · exact same unedited
            · exact unchanged (matched.unique other ▸ unchangedThere)
          · dsimp only
            omega
          · intro occurs
            refine ⟨rfl, by dsimp only; omega, ?_⟩
            exact window_oldLines occurs
    · have nowhere : ∀ w, ¬MatchedAt jaroWinkler fileLines edit w := fun w matched => anywhere ⟨w, matched⟩
      refine .inr ⟨?_, .inr (.inl ⟨?_, ⟨same, fun w _ => nowhere w⟩, matchHunk_unmatched same nowhere deltas failures⟩)⟩
      · rintro ⟨-, -, -, matched⟩
        exact nowhere _ matched
      · rintro (unedited | ⟨w, -, matched, -⟩)
        · exact same unedited
        · exact nowhere w matched

theorem increment_eq (overflowChecks : Bool) {count : ℕ} (small : count < 2 ^ 8) :
    (overflowChecks = true ∧ count + 1 = 2 ^ 8 ∧ increment overflowChecks count = none) ∨
      (¬(overflowChecks = true ∧ count + 1 = 2 ^ 8) ∧
        ∃ next < 2 ^ 8, increment overflowChecks count = some next ∧ (overflowChecks = true → next = count + 1)) := by
  unfold increment
  by_cases full : overflowChecks = true ∧ count + 1 = 2 ^ 8
  · left
    refine ⟨full.1, full.2, if_pos ?_⟩
    rw [full.1, Bool.true_and, decide_eq_true_eq]
    omega
  · right
    refine ⟨full, (count + 1) % 2 ^ 8, Nat.mod_lt _ (by decide), if_neg ?_, ?_⟩
    · rw [Bool.and_eq_true, decide_eq_true_eq]
      rintro ⟨checked, last⟩
      exact full ⟨checked, by omega⟩
    · intro checked
      apply Nat.mod_eq_of_lt
      have notLast : ¬count + 1 = 2 ^ 8 := fun last => full ⟨checked, last⟩
      omega

/-- The condition under which no hunk of a list panics, for counters that stand at `noops` and `misses`. -/
def SafeFrom (overflowChecks : Bool) (jaroWinkler : JaroWinkler) (fileLines : List Str) (noops misses : ℕ)
    (diffs : List V4AHunk) : Prop :=
  (∀ edit ∈ diffs, ¬(edit.old ≠ edit.new ∧ CutShort jaroWinkler fileLines edit)) ∧
    (overflowChecks = true →
      noops + diffs.countP (Noop jaroWinkler fileLines ·) < 2 ^ 8 ∧
      misses + diffs.countP (Unmatched jaroWinkler fileLines ·) < 2 ^ 8)

theorem safeFrom_cons {noops misses : ℕ} :
    SafeFrom overflowChecks jaroWinkler fileLines noops misses (edit :: diffs) ↔
      ¬(edit.old ≠ edit.new ∧ CutShort jaroWinkler fileLines edit) ∧
        SafeFrom overflowChecks jaroWinkler fileLines
          (noops + if Noop jaroWinkler fileLines edit then 1 else 0)
          (misses + if Unmatched jaroWinkler fileLines edit then 1 else 0) diffs := by
  unfold SafeFrom
  rw [forall_mem_cons, countP_cons, countP_cons, and_assoc]
  simp only [decide_eq_true_eq]
  constructor
  · rintro ⟨uncut, restUncut, counters⟩
    refine ⟨uncut, restUncut, ?_⟩
    intro checked
    have := counters checked
    omega
  · rintro ⟨uncut, restUncut, counters⟩
    refine ⟨uncut, restUncut, ?_⟩
    intro checked
    have := counters checked
    omega

theorem SafeFrom.congr {noops misses noops' misses' : ℕ}
    (same : overflowChecks = true → noops = noops' ∧ misses = misses') :
    SafeFrom overflowChecks jaroWinkler fileLines noops misses diffs ↔
      SafeFrom overflowChecks jaroWinkler fileLines noops' misses' diffs := by
  unfold SafeFrom
  apply and_congr_right
  intro _
  apply forall_congr'
  intro checked
  rw [(same checked).1, (same checked).2]

theorem foldlM_matchHunk_iff {deltas : List DiffDelta} {failures : DiffMatchFailures}
    (noopsSmall : failures.noopDeltas < 2 ^ 8) (missesSmall : failures.fuzzyMatchFailures < 2 ^ 8) :
    (∃ final, diffs.foldlM (matchHunk overflowChecks jaroWinkler fileLines) (deltas, failures) = some final) ↔
      SafeFrom overflowChecks jaroWinkler fileLines failures.noopDeltas failures.fuzzyMatchFailures diffs := by
  induction diffs generalizing deltas failures with
  | nil =>
    refine ⟨fun _ => ⟨nofun, fun _ => ⟨noopsSmall, missesSmall⟩⟩, fun _ => ⟨_, rfl⟩⟩
  | cons edit diffs ih =>
    rw [foldlM_cons, safeFrom_cons]
    rcases matchHunk_cases overflowChecks jaroWinkler fileLines edit deltas failures with
      ⟨differs, cut, step⟩ | ⟨uncut, ⟨noop, matched, step⟩ | ⟨changes, unmatched, step⟩ |
        ⟨changes, matched, delta, -, step⟩⟩
    · rw [step]
      exact ⟨nofun, fun safe => absurd ⟨differs, cut⟩ safe.1⟩
    · rw [step, if_pos noop, if_neg matched, Nat.add_zero, and_iff_right uncut]
      rcases increment_eq overflowChecks noopsSmall with ⟨checked, last, stops⟩ | ⟨-, next, nextSmall, counted, exact⟩
      · rw [stops, last]
        refine ⟨nofun, fun safe => ?_⟩
        have := (safe.2 checked).1
        omega
      · rw [counted]
        refine (@ih _ { failures with noopDeltas := next } nextSmall missesSmall).trans ?_
        exact SafeFrom.congr fun checked => ⟨exact checked, rfl⟩
    · rw [step, if_neg changes, if_pos unmatched, Nat.add_zero, and_iff_right uncut]
      rcases increment_eq overflowChecks missesSmall with ⟨checked, last, stops⟩ | ⟨-, next, nextSmall, counted, exact⟩
      · rw [stops, last]
        refine ⟨nofun, fun safe => ?_⟩
        have := (safe.2 checked).2
        omega
      · rw [counted]
        refine (@ih _ { failures with fuzzyMatchFailures := next } noopsSmall nextSmall).trans ?_
        exact SafeFrom.congr fun checked => ⟨rfl, exact checked⟩
    · rw [step, if_neg changes, if_neg matched, Nat.add_zero, Nat.add_zero, and_iff_right uncut]
      exact ih noopsSmall missesSmall

variable {deltas : List DiffDelta}

theorem foldlM_matchHunk_emits {failures : DiffMatchFailures} {final : List DiffDelta × DiffMatchFailures}
    (ran : diffs.foldlM (matchHunk overflowChecks jaroWinkler fileLines) (deltas, failures) = some final) :
    ∀ delta ∈ final.1, delta ∈ deltas ∨ ∃ edit ∈ diffs, Emitted jaroWinkler fileLines edit delta := by
  induction diffs generalizing deltas failures with
  | nil =>
    injection ran with same
    subst same
    exact fun delta member => .inl member
  | cons edit diffs ih =>
    rw [foldlM_cons] at ran
    obtain ⟨⟨nextDeltas, nextFailures⟩, stepped, ran⟩ := Option.bind_eq_some_iff.mp ran
    have later : ∀ delta ∈ final.1, delta ∈ nextDeltas ∨ ∃ other ∈ edit :: diffs,
        Emitted jaroWinkler fileLines other delta := by
      intro delta member
      apply (ih ran delta member).imp_right
      rintro ⟨other, isLater, emitted⟩
      exact ⟨other, mem_cons_of_mem edit isLater, emitted⟩
    have keeps : nextDeltas = deltas ∨ ∃ delta, Emitted jaroWinkler fileLines edit delta ∧
        nextDeltas = deltas ++ [delta] := by
      rcases matchHunk_cases overflowChecks jaroWinkler fileLines edit deltas failures with
        ⟨-, -, step⟩ | ⟨-, ⟨-, -, step⟩ | ⟨-, -, step⟩ | ⟨-, -, delta, emitted, step⟩⟩
      · rw [step] at stepped
        cases stepped
      · rw [step] at stepped
        obtain ⟨count, -, same⟩ := Option.map_eq_some_iff.mp stepped
        exact .inl (congrArg Prod.fst same).symm
      · rw [step] at stepped
        obtain ⟨count, -, same⟩ := Option.map_eq_some_iff.mp stepped
        exact .inl (congrArg Prod.fst same).symm
      · rw [step] at stepped
        exact .inr ⟨delta, emitted, (congrArg Prod.fst (Option.some_inj.mp stepped)).symm⟩
    intro delta member
    rcases later delta member with inNext | emitted
    · rcases keeps with same | ⟨fresh, emitted, same⟩
      · exact .inl (same ▸ inNext)
      · rw [same] at inNext
        rcases List.mem_append.mp inNext with old | new
        · exact .inl old
        · rw [mem_singleton] at new
          exact .inr ⟨edit, mem_cons_self, new ▸ emitted⟩
    · exact .inr emitted

theorem deduplicate_spec
    (ordered : ∀ delta ∈ deltas, delta.replacementLineRange.start ≤ delta.replacementLineRange.stop) :
    (deduplicateOverlappingDeltas deltas).Sublist deltas ∧
      (deduplicateOverlappingDeltas deltas).Pairwise fun a b =>
        a.replacementLineRange.stop ≤ b.replacementLineRange.start := by
  suffices general : ∀ accepted : List DiffDelta,
      (∀ delta ∈ accepted, delta.replacementLineRange.start ≤ delta.replacementLineRange.stop) →
      (accepted.Pairwise fun a b => a.replacementLineRange.stop ≤ b.replacementLineRange.start) →
      ∃ fresh, fresh.Sublist deltas ∧ deltas.foldl (fun result delta =>
          let dominated := result.getLast?.any fun prev =>
            delta.replacementLineRange.start < prev.replacementLineRange.stop
          if dominated then result else result ++ [delta]) accepted = accepted ++ fresh ∧
        (accepted ++ fresh).Pairwise fun a b => a.replacementLineRange.stop ≤ b.replacementLineRange.start by
    obtain ⟨fresh, sublist, result, apart⟩ := general [] nofun List.Pairwise.nil
    unfold deduplicateOverlappingDeltas
    rw [result]
    exact ⟨sublist, apart⟩
  induction deltas with
  | nil =>
    intro accepted _ apart
    exact ⟨[], List.Sublist.refl _, (append_nil accepted).symm, by rw [append_nil]; exact apart⟩
  | cons delta deltas ih =>
    intro accepted acceptedOrdered apart
    obtain ⟨deltaOrdered, ordered⟩ := List.forall_mem_cons.mp ordered
    rw [foldl_cons]
    by_cases dominated : (accepted.getLast?.any fun prev =>
        decide (delta.replacementLineRange.start < prev.replacementLineRange.stop)) = true
    · obtain ⟨fresh, sublist, result, apart⟩ := ih ordered accepted acceptedOrdered apart
      refine ⟨fresh, sublist.cons delta, ?_, apart⟩
      exact (congrArg (fun state => List.foldl _ state deltas) (if_pos dominated)).trans result
    · have nextApart : (accepted ++ [delta]).Pairwise fun a b =>
          a.replacementLineRange.stop ≤ b.replacementLineRange.start := by
        rcases eq_nil_or_concat accepted with rfl | ⟨init, last, rfl⟩
        · exact pairwise_singleton _ _
        · rw [concat_eq_append] at *
          have afterLast : last.replacementLineRange.stop ≤ delta.replacementLineRange.start := by
            rw [List.getLast?_concat] at dominated
            simpa using dominated
          have lastOrdered := acceptedOrdered last (by simp)
          obtain ⟨-, -, beforeLast⟩ := List.pairwise_append.mp apart
          apply List.pairwise_append.mpr
          refine ⟨apart, pairwise_singleton _ _, ?_⟩
          intro prev member next isNext
          rw [List.mem_singleton.mp isNext]
          rcases List.mem_append.mp member with earlier | isLast
          · have := beforeLast prev earlier last (mem_singleton_self last)
            omega
          · rw [List.mem_singleton.mp isLast]
            exact afterLast
      have nextOrdered : ∀ other ∈ accepted ++ [delta],
          other.replacementLineRange.start ≤ other.replacementLineRange.stop := by
        intro other member
        rcases List.mem_append.mp member with earlier | isDelta
        · exact acceptedOrdered other earlier
        · rw [List.mem_singleton.mp isDelta]
          exact deltaOrdered
      obtain ⟨fresh, sublist, result, apart⟩ := ih ordered _ nextOrdered nextApart
      rw [← append_cons] at result apart
      refine ⟨delta :: fresh, sublist.cons_cons delta, ?_, apart⟩
      exact (congrArg (fun state => List.foldl _ state deltas) (if_neg dominated)).trans result

instance : Std.Total startsBefore := ⟨fun _ _ => Nat.le_total _ _⟩

instance : IsTrans DiffDelta startsBefore := ⟨fun _ _ _ => Nat.le_trans⟩

structure Exact (jaroWinkler : JaroWinkler) (diffs : List V4AHunk) (fileLines : List Str) (deltas : List DiffDelta) :
    Prop where
  emitted : ∀ delta ∈ deltas, ∃ edit ∈ diffs, Emitted jaroWinkler fileLines edit delta
  sorted : deltas.Pairwise startsBefore
  disjoint : deltas.Pairwise fun a b => a.replacementLineRange.stop ≤ b.replacementLineRange.start

/-- No hunk's blank last line lies after the end of the file, and the counters of the failures do not overflow. -/
def Safe (overflowChecks : Bool) (jaroWinkler : JaroWinkler) (fileLines : List Str) (diffs : List V4AHunk) : Prop :=
  SafeFrom overflowChecks jaroWinkler fileLines 0 0 diffs

/-- Matching V4A hunks is safe and exact if and only if no blank last line is cut short. -/
theorem fuzzyMatchV4aDiffs_exact_iff (overflowChecks : Bool) (jaroWinkler : JaroWinkler) (fileName : Str)
    (diffs : List V4AHunk) (renameTo : Option Str) (fileContent : Str) :
    (∃ diff deltas, fuzzyMatchV4aDiffs overflowChecks jaroWinkler fileName diffs renameTo fileContent = some diff ∧
      diff.diffType = .update deltas renameTo ∧ Exact jaroWinkler diffs (Str.lines fileContent) deltas) ↔
      Safe overflowChecks jaroWinkler (Str.lines fileContent) diffs := by
  have run := @foldlM_matchHunk_iff jaroWinkler diffs (Str.lines fileContent) overflowChecks [] ⟨0, 0, 0⟩ (by decide) (by decide)
  unfold Safe
  rw [← run]
  unfold fuzzyMatchV4aDiffs
  constructor
  · rintro ⟨diff, deltas, ran, -⟩
    obtain ⟨final, ran, -⟩ := Option.bind_eq_some_iff.mp ran
    exact ⟨final, ran⟩
  · rintro ⟨⟨deltas, failures⟩, ran⟩
    refine ⟨_, _, Option.bind_eq_some_iff.mpr ⟨_, ran, rfl⟩, rfl, ?_⟩
    have emits := foldlM_matchHunk_emits ran
    have sorted := pairwise_insertionSort startsBefore deltas
    have origin : ∀ delta ∈ deltas.insertionSort startsBefore, ∃ edit ∈ diffs,
        Emitted jaroWinkler (Str.lines fileContent) edit delta := by
      intro delta member
      rcases emits delta ((mem_insertionSort startsBefore).mp member) with nothing | emitted
      · cases nothing
      · exact emitted
    obtain ⟨sublist, apart⟩ := deduplicate_spec fun delta member => by
      obtain ⟨edit, -, emitted⟩ := origin delta member
      exact emitted.bounds.2.1
    exact ⟨fun delta member => origin delta (sublist.subset member), sorted.sublist sublist, apart⟩

/-- A hunk that ends with a blank line, matched at the last line of the file. -/
theorem blank_tail_panics :
    let diffs : List V4AHunk := [⟨[], [], ['a', '\n', '\n'], ['x'], []⟩]
    fuzzyMatchV4aDiffs false (fun a b => if a = b then 1 else 0) ['f'] diffs none ['b', '\n', 'a'] = none := by
  decide +kernel

end Warp.Diff
