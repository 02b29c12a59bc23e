import Warp.Diff.V4aWindow

namespace Warp.Diff

open Str List

variable {jaroWinkler : JaroWinkler} {edit : V4AHunk} {fileLines : List Str} {w v : ℕ} {overflowChecks : Bool}

theorem findChangeContextStart_le {changeContext : List Str} {start : ℕ}
    (found : findChangeContextStart changeContext fileLines = some start) : start ≤ fileLines.length := by
  unfold findChangeContextStart at found
  suffices general : ∀ position ≤ fileLines.length, ∀ final, changeContext.foldlM (fun currentPos marker =>
      if marker = [] then some currentPos
      else ((fileLines.drop currentPos).findIdx? fun line => (trim marker).isPrefixOf (trimStart line)).map
        fun relativeMatch => currentPos + relativeMatch + 1) position = some final → final ≤ fileLines.length from
    general 0 (Nat.zero_le _) start found
  clear found
  induction changeContext with
  | nil =>
    intro position inside final same
    injection same with same
    exact same ▸ inside
  | cons marker markers ih =>
    intro position inside final found
    rw [foldlM_cons] at found
    obtain ⟨next, stepped, found⟩ := Option.bind_eq_some_iff.mp found
    apply ih next _ final found
    by_cases blank : marker = []
    · rw [if_pos blank] at stepped
      injection stepped with same
      exact same ▸ inside
    · rw [if_neg blank] at stepped
      obtain ⟨relativeMatch, isMatch, rfl⟩ := Option.map_eq_some_iff.mp stepped
      have within := (List.findIdx?_eq_some_iff_getElem.mp isMatch).1
      rw [length_drop] at within
      omega

namespace V4AHunk

theorem pattern_plain (edit : V4AHunk) : ∀ line ∈ edit.pattern, '\n' ∉ line := by
  intro line member
  unfold pattern at member
  rcases List.mem_append.mp member with before | after
  · rcases List.mem_append.mp before with before | old
    · exact lines_plain line before
    · exact lines_plain line old
  · exact lines_plain line after

theorem length_pattern (edit : V4AHunk) :
    edit.pattern.length = edit.preContextLines.length + edit.oldLines.length + edit.postContextLines.length := by
  unfold pattern
  rw [length_append, length_append]

def BlankTail (edit : V4AHunk) : Prop := 2 ≤ edit.pattern.length ∧ edit.pattern.getLast? = some []

instance (edit : V4AHunk) : Decidable edit.BlankTail := inferInstanceAs (Decidable (_ ∧ _))

theorem length_lines_pattern (edit : V4AHunk) (nonempty : edit.pattern ≠ []) :
    (lines (join edit.pattern)).length = if edit.BlankTail then edit.pattern.length - 1 else edit.pattern.length := by
  have read := length_lines_join nonempty edit.pattern_plain
  have positive := List.length_pos_iff.mpr nonempty
  by_cases single : edit.pattern.length = 1
  · obtain ⟨line, isLine⟩ := List.length_eq_one_iff.mp single
    have plain := edit.pattern_plain line (isLine ▸ mem_singleton_self line)
    rw [if_neg fun blank => by have := blank.1; omega, isLine, join_singleton]
    unfold Diff.lines
    by_cases blank : line = []
    · rw [if_pos blank]
      rfl
    · rw [if_neg blank, lines_line plain, if_neg blank]
  · have several : join edit.pattern ≠ [] := by
      obtain ⟨first, rest, isCons⟩ := exists_cons_of_ne_nil nonempty
      rw [isCons] at single ⊢
      obtain ⟨second, rest, rfl⟩ := exists_cons_of_ne_nil (l := rest) (by rintro rfl; exact single rfl)
      rw [join_cons_cons]
      exact append_ne_nil_of_right_ne_nil _ (cons_ne_nil _ _)
    unfold Diff.lines
    rw [if_neg several, read]
    by_cases blank : edit.BlankTail
    · rw [if_pos blank, if_pos blank.2]
    · rw [if_neg blank, if_neg fun last => blank ⟨by omega, last⟩]

theorem lines_pattern_positive (edit : V4AHunk) (nonempty : edit.pattern ≠ []) :
    0 < (lines (join edit.pattern)).length := by
  have positive := List.length_pos_iff.mpr nonempty
  rw [edit.length_lines_pattern nonempty]
  by_cases blank : edit.BlankTail
  · have := blank.1
    rw [if_pos blank]
    omega
  · rw [if_neg blank]
    exact positive

end V4AHunk

/-- The window of a hunk starts after `w` lines of the file: it is the first of the best ones by the first scorer that
accepts any after the context markers. -/
def MatchedAt (jaroWinkler : JaroWinkler) (fileLines : List Str) (edit : V4AHunk) (w : ℕ) : Prop :=
  ∃ start ∈ edit.searchStart fileLines, start ≤ w ∧
    (edit.pattern = [] ∧ w = start ∨
      edit.pattern ≠ [] ∧ edit.pattern.length ≤ fileLines.length - start ∧
        FirstMatch (join edit.pattern) (fileLines.drop start) (w - start) (v4aTiers jaroWinkler))

instance : Decidable (MatchedAt jaroWinkler fileLines edit w) := inferInstanceAs (Decidable (∃ start ∈ _, _))

theorem searchStart_le {start : ℕ} (found : edit.searchStart fileLines = some start) : start ≤ fileLines.length := by
  unfold V4AHunk.searchStart at found
  by_cases noContext : edit.changeContext = []
  · rw [if_pos noContext] at found
    injection found with same
    exact same ▸ Nat.zero_le _
  · rw [if_neg noContext] at found
    exact findChangeContextStart_le found

theorem MatchedAt.unique (matched : MatchedAt jaroWinkler fileLines edit w)
    (other : MatchedAt jaroWinkler fileLines edit v) : w = v := by
  obtain ⟨start, isStart, after, position⟩ := matched
  obtain ⟨otherStart, isOther, otherAfter, otherPosition⟩ := other
  have same : start = otherStart := Option.some_inj.mp (isStart.symm.trans isOther)
  subst same
  rcases position with ⟨nothing, rfl⟩ | ⟨something, -, first⟩ <;>
    rcases otherPosition with ⟨otherNothing, rfl⟩ | ⟨otherSomething, -, otherFirst⟩
  · rfl
  · exact absurd nothing otherSomething
  · exact absurd otherNothing something
  · have := first.unique otherFirst
    omega

theorem MatchedAt.inside (matched : MatchedAt jaroWinkler fileLines edit w) :
    w + edit.pattern.length ≤ fileLines.length ∨
      edit.BlankTail ∧ w + edit.pattern.length = fileLines.length + 1 := by
  obtain ⟨start, isStart, after, ⟨nothing, rfl⟩ | ⟨something, fits, first⟩⟩ := matched
  · rw [nothing]
    exact .inl (searchStart_le isStart)
  · have within := first.inside
    rw [edit.length_lines_pattern something, length_drop] at within
    by_cases blank : edit.BlankTail
    · rw [if_pos blank] at within
      have := blank.1
      have := searchStart_le isStart
      by_cases tight : w + edit.pattern.length ≤ fileLines.length
      · exact .inl tight
      · exact .inr ⟨blank, by omega⟩
    · rw [if_neg blank] at within
      have := searchStart_le isStart
      exact .inl (by omega)

theorem findV4aMatch_spec (overflowChecks : Bool) (jaroWinkler : JaroWinkler) (edit : V4AHunk) (fileLines : List Str) :
    (∃ w, MatchedAt jaroWinkler fileLines edit w ∧
      findV4aMatch overflowChecks jaroWinkler edit fileLines =
        some (some ⟨w + edit.preContextLines.length + 1,
          w + edit.preContextLines.length + edit.oldLines.length + 1⟩)) ∨
    findV4aMatch overflowChecks jaroWinkler edit fileLines = some none ∧
      ∀ w, ¬MatchedAt jaroWinkler fileLines edit w := by
  unfold findV4aMatch
  cases isStart : edit.searchStart fileLines with
  | none =>
    refine .inr ⟨rfl, ?_⟩
    rintro w ⟨start, found, -⟩
    rw [isStart] at found
    cases found
  | some start =>
    simp only [← edit.length_pattern]
    by_cases nothing : edit.pattern.length = 0
    · have empty := List.length_eq_zero_iff.mp nothing
      have parts := edit.length_pattern
      rw [if_pos nothing]
      refine .inl ⟨start, ⟨start, isStart, Nat.le_refl _, .inl ⟨empty, rfl⟩⟩, ?_⟩
      congr 3 <;> omega
    · have something : edit.pattern ≠ [] := fun empty => nothing (by rw [empty]; rfl)
      rw [if_neg nothing]
      by_cases long : (fileLines.drop start).length < edit.pattern.length
      · rw [if_pos long]
        refine .inr ⟨rfl, ?_⟩
        rintro w ⟨other, found, -, ⟨empty, -⟩ | ⟨-, fits, -⟩⟩
        · exact something empty
        · have same : start = other := Option.some_inj.mp (isStart.symm.trans found)
          rw [length_drop, same] at long
          omega
      · rw [if_neg long]
        rw [length_drop] at long
        rcases matchTiers_spec overflowChecks (edit.lines_pattern_positive something)
          (v4aTiers jaroWinkler) with ⟨i, first, found⟩ | ⟨found, none⟩
        · refine .inl ⟨start + i, ⟨start, isStart, Nat.le_add_right _ _, .inr ⟨something, by omega, ?_⟩⟩, ?_⟩
          · rw [Nat.add_sub_cancel_left]
            exact first
          · rw [found]
            rfl
        · refine .inr ⟨by rw [found]; rfl, ?_⟩
          rintro w ⟨other, isOther, -, ⟨empty, -⟩ | ⟨-, -, first⟩⟩
          · exact something empty
          · have same : start = other := Option.some_inj.mp (isStart.symm.trans isOther)
            subst same
            exact none _ first

end Warp.Diff
