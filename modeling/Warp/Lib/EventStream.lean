import Mathlib.Data.List.DropRight
import Warp.Lib.Utf8Lossy

namespace Warp.EventStream

open Str List

/-- The text before the first blank line, and the text after it. -/
def cut : Str → Option (Str × Str)
  | [] => none
  | c :: s =>
    if ['\r', '\n', '\r', '\n'] <+: c :: s then some ([], s.drop 3)
    else if ['\n', '\n'] <+: c :: s then some ([], s.drop 1)
    else (cut s).map fun (block, rest) => (c :: block, rest)

def blocksFrom : ℕ → Str → List Str × Str
  | 0, s => ([], s)
  | fuel + 1, s =>
    match cut s with
    | some (block, rest) => (block :: (blocksFrom fuel rest).1, (blocksFrom fuel rest).2)
    | none => ([], s)

def blocks (s : Str) : List Str × Str := blocksFrom s.length s

def lineData (line : Str) : Option Str :=
  let line := line.rdropWhile (· = '\r')
  if "data:".toList <+: line then some (trimStart (line.drop 5)) else none

def data (block : Str) : Str := join ((lines block).filterMap lineData)

def payloads (s : Str) : List Str := ((blocks s).1.map data).filter fun data => data ≠ []

/-- The line that a text ends in, where `line` is what was read of it before. -/
def lineFrom (line : Str) : Str → Str
  | [] => line
  | c :: s => lineFrom (if c = '\n' then [] else line ++ [c]) s

def separators : List Str := [['\r', '\n', '\r', '\n'], ['\n', '\n']]

section Cut

variable {c : Char} {s t block rest : Str} {fuel : ℕ}

theorem cut_cons_crlf (crlf : ['\r', '\n', '\r', '\n'] <+: c :: s) : cut (c :: s) = some ([], s.drop 3) := if_pos crlf

theorem cut_cons_lf (lf : ['\n', '\n'] <+: c :: s) : cut (c :: s) = some ([], s.drop 1) := by
  have other : ¬ ['\r', '\n', '\r', '\n'] <+: c :: s := by
    intro crlf
    rw [cons_prefix_cons] at lf crlf
    exact absurd (lf.1.trans crlf.1.symm) (by decide)
  unfold cut
  rw [if_neg other, if_pos lf]

theorem cut_cons (crlf : ¬ ['\r', '\n', '\r', '\n'] <+: c :: s) (lf : ¬ ['\n', '\n'] <+: c :: s) :
    cut (c :: s) = (cut s).map fun (block, rest) => (c :: block, rest) := by
  rw [cut, if_neg crlf, if_neg lf]

theorem cut_eq (found : cut s = some (block, rest)) :
    s = block ++ ['\r', '\n', '\r', '\n'] ++ rest ∨ s = block ++ ['\n', '\n'] ++ rest := by
  induction s generalizing block with
  | nil => cases found
  | cons c s ih =>
    by_cases crlf : ['\r', '\n', '\r', '\n'] <+: c :: s
    · rw [cut_cons_crlf crlf] at found
      obtain ⟨after, split⟩ := crlf
      cases found
      cases split
      exact Or.inl rfl
    by_cases lf : ['\n', '\n'] <+: c :: s
    · rw [cut_cons_lf lf] at found
      obtain ⟨after, split⟩ := lf
      cases found
      cases split
      exact Or.inr rfl
    rw [cut_cons crlf lf] at found
    obtain ⟨⟨inner, other⟩, foundInner, same⟩ := Option.map_eq_some_iff.mp found
    cases same
    rcases ih foundInner with split | split
    · exact Or.inl (congrArg (List.cons c) split)
    · exact Or.inr (congrArg (List.cons c) split)

theorem length_lt_of_cut (found : cut s = some (block, rest)) : rest.length < s.length := by
  rcases cut_eq found with rfl | rfl
  all_goals simp only [length_append, length_cons, length_nil]
  all_goals omega

theorem cut_append (found : cut s = some (block, rest)) : cut (s ++ t) = some (block, rest ++ t) := by
  induction s generalizing block with
  | nil => cases found
  | cons c s ih =>
    by_cases crlf : ['\r', '\n', '\r', '\n'] <+: c :: s
    · rw [cut_cons_crlf crlf] at found
      obtain ⟨after, split⟩ := crlf
      cases found
      cases split
      exact cut_cons_crlf (prefix_append _ _)
    by_cases lf : ['\n', '\n'] <+: c :: s
    · rw [cut_cons_lf lf] at found
      obtain ⟨after, split⟩ := lf
      cases found
      cases split
      exact cut_cons_lf (prefix_append _ _)
    rw [cut_cons crlf lf] at found
    obtain ⟨⟨inner, other⟩, foundInner, same⟩ := Option.map_eq_some_iff.mp found
    cases same
    have grown := ih foundInner
    -- No pattern starts here: one that reaches past the end would overlap the blank line that was found.
    have notCrlf : ¬ ['\r', '\n', '\r', '\n'] <+: c :: (s ++ t) := by
      rcases cut_eq foundInner with rfl | rfl
      all_goals
        rcases inner with - | ⟨a, - | ⟨b, - | ⟨d, inner⟩⟩⟩
        all_goals
          intro crlf'
          apply crlf
          simp only [nil_append, cons_append, cons_prefix_cons, nil_prefix, and_true] at crlf' ⊢
          revert crlf'
          simp
    have notLf : ¬ ['\n', '\n'] <+: c :: (s ++ t) := by
      rcases cut_eq foundInner with rfl | rfl
      all_goals
        rcases inner with - | ⟨a, inner⟩
        all_goals
          intro lf'
          apply lf
          simp only [nil_append, cons_append, cons_prefix_cons, nil_prefix, and_true] at lf' ⊢
          exact lf'
    rw [cons_append, cut_cons notCrlf notLf, grown]
    rfl

theorem cut_suffix (found : cut t ≠ none) : cut (s ++ t) ≠ none := by
  induction s with
  | nil => exact found
  | cons c s ih =>
    by_cases crlf : ['\r', '\n', '\r', '\n'] <+: c :: (s ++ t)
    · rw [cons_append, cut_cons_crlf crlf]
      exact Option.some_ne_none _
    by_cases lf : ['\n', '\n'] <+: c :: (s ++ t)
    · rw [cons_append, cut_cons_lf lf]
      exact Option.some_ne_none _
    rw [cons_append, cut_cons crlf lf]
    intro nothing
    exact ih (Option.map_eq_none_iff.mp nothing)

theorem cut_separator {sep : Str} (member : sep ∈ separators) : cut (s ++ (sep ++ t)) ≠ none := by
  apply cut_suffix
  have found : cut (sep ++ t) = some ([], t) := by
    rcases List.mem_pair.mp member with rfl | rfl
    · exact cut_cons_crlf (prefix_append _ _)
    · exact cut_cons_lf (prefix_append _ _)
  rw [found]
  exact Option.some_ne_none _

end Cut

section Line

variable {line s t : Str}

theorem lineFrom_append : lineFrom line (s ++ t) = lineFrom (lineFrom line s) t := by
  induction s generalizing line with
  | nil => rfl
  | cons c s ih => exact ih

theorem lineFrom_separator {sep : Str} (member : sep ∈ separators) : lineFrom line sep = [] := by
  rcases List.mem_pair.mp member with rfl | rfl
  all_goals rfl

end Line

section Blocks

variable {s t block rest : Str} {fuel more : ℕ}

theorem blocksFrom_fuel (enough : s.length ≤ fuel) (enoughToo : s.length ≤ more) :
    blocksFrom fuel s = blocksFrom more s := by
  induction fuel generalizing s more with
  | zero =>
    obtain rfl := List.length_eq_zero_iff.mp (Nat.le_zero.mp enough)
    cases more with
    | zero => rfl
    | succ more => rfl
  | succ fuel ih =>
    cases more with
    | zero =>
      obtain rfl := List.length_eq_zero_iff.mp (Nat.le_zero.mp enoughToo)
      rfl
    | succ more =>
      unfold blocksFrom
      cases found : cut s with
      | none => rfl
      | some parts =>
        have shorter := length_lt_of_cut found
        have same : blocksFrom fuel parts.2 = blocksFrom more parts.2 := ih (by omega) (by omega)
        simp only [same]

theorem blocks_of_cut (found : cut s = some (block, rest)) :
    blocks s = (block :: (blocks rest).1, (blocks rest).2) := by
  have shorter := length_lt_of_cut found
  obtain ⟨fuel, length⟩ : ∃ fuel, s.length = fuel + 1 := Nat.exists_eq_succ_of_ne_zero (by omega)
  have same : blocksFrom fuel rest = blocks rest := blocksFrom_fuel (by omega) (Nat.le_refl _)
  unfold blocks at same ⊢
  rw [length, blocksFrom, found]
  simp only [same]

theorem blocks_of_none (nothing : cut s = none) : blocks s = ([], s) := by
  unfold blocks
  cases s.length with
  | zero => rfl
  | succ fuel => rw [blocksFrom, nothing]

theorem blocks_induction {motive : Str → Prop} (last : ∀ s, cut s = none → motive s)
    (next : ∀ s block rest, cut s = some (block, rest) → motive rest → motive s) (s : Str) : motive s := by
  obtain ⟨n, bound⟩ : ∃ n, s.length ≤ n := ⟨s.length, Nat.le_refl _⟩
  induction n generalizing s with
  | zero =>
    obtain rfl := List.length_eq_zero_iff.mp (Nat.le_zero.mp bound)
    exact last [] rfl
  | succ n ih =>
    cases found : cut s with
    | none => exact last s found
    | some parts =>
      have shorter := length_lt_of_cut found
      exact next s parts.1 parts.2 found (ih parts.2 (by omega))

theorem blocks_append : blocks (s ++ t) =
    ((blocks s).1 ++ (blocks ((blocks s).2 ++ t)).1, (blocks ((blocks s).2 ++ t)).2) := by
  induction s using blocks_induction with
  | last s nothing =>
    rw [blocks_of_none nothing]
    rfl
  | next s block rest found ih =>
    rw [blocks_of_cut (cut_append found), blocks_of_cut found, ih]
    rfl

theorem cut_blocks_rest : cut (blocks s).2 = none := by
  induction s using blocks_induction with
  | last s nothing =>
    rw [blocks_of_none nothing]
    exact nothing
  | next s block rest found ih =>
    rw [blocks_of_cut found]
    exact ih

end Blocks

def fieldNames : List Str := ["data".toList, "event".toList, "id".toList, "retry".toList]

def IsField (line : Str) : Prop :=
  [':'] <+: line ∨ ∃ name ∈ fieldNames, line = name ∨ name ++ [':'] <+: line

instance (line : Str) : Decidable (IsField line) :=
  inferInstanceAs (Decidable ([':'] <+: line ∨ ∃ name ∈ fieldNames, line = name ∨ name ++ [':'] <+: line))

def Form (s : Str) : Prop := ∀ line ∈ lines s, line = [] ∨ line = ['\r'] ∨ IsField line

instance (s : Str) : Decidable (Form s) :=
  inferInstanceAs (Decidable (∀ line ∈ lines s, line = [] ∨ line = ['\r'] ∨ IsField line))

def LineEnds (s : Str) : Prop := ∀ c ∈ s, c = '\r' ∨ c = '\n'

def fieldStarts : List Char := ['d', 'e', 'i', 'r', ':']

section Form

variable {c : Char} {line s t ends : Str}

theorem IsField.start (isField : IsField (c :: s)) : c ∈ fieldStarts := by
  rcases isField with comment | ⟨name, member, same | starts⟩
  · rw [cons_prefix_cons] at comment
    rw [← comment.1]
    decide
  · have all : ∀ name ∈ fieldNames, ∀ c s, c :: s = name → c ∈ fieldStarts := by
      intro name member c s same
      simp only [fieldNames, mem_cons, not_mem_nil, or_false] at member
      rcases member with rfl | rfl | rfl | rfl
      all_goals
        cases same
        decide
    exact all name member c s same
  · have all : ∀ name ∈ fieldNames, ∀ c s, name ++ [':'] <+: c :: s → c ∈ fieldStarts := by
      intro name member c s starts
      simp only [fieldNames, mem_cons, not_mem_nil, or_false] at member
      rcases member with rfl | rfl | rfl | rfl
      all_goals
        obtain ⟨rest, same⟩ := starts
        cases same
        decide
    exact all name member c s starts

theorem linesFrom_begun (plain : c ≠ '\r') : ∃ more ∈ linesFrom (line ++ [c]) s, line ++ [c] <+: more := by
  have begun : ∀ more, ∃ whole ∈ linesFrom (line ++ [c] ++ more) s, line ++ [c] <+: whole := by
    induction s with
    | nil =>
      intro more
      refine ⟨line ++ [c] ++ more, ?_, prefix_append _ _⟩
      have some : line ++ [c] ++ more ≠ [] := by simp
      unfold linesFrom
      rw [if_neg some]
      exact mem_singleton_self _
    | cons d s ih =>
      intro more
      unfold linesFrom
      by_cases feed : d = '\n'
      · rw [if_pos feed]
        refine ⟨_, mem_cons_self, ?_⟩
        unfold stripCarriageReturn
        split
        · next ends =>
          rcases eq_nil_or_concat' more with rfl | ⟨more, last, rfl⟩
          · rw [append_nil, List.getLast?_concat] at ends
            exact absurd (Option.some.inj ends) plain
          · rw [← append_assoc, dropLast_concat]
            exact prefix_append _ _
        · exact prefix_append _ _
      · rw [if_neg feed, append_assoc _ more]
        exact ih (more ++ [d])
  have here := begun []
  rw [append_nil] at here
  exact here

theorem form_shape_from (returns : ∀ c ∈ line, c = '\r')
    (form : ∀ whole ∈ linesFrom line s, whole = [] ∨ whole = ['\r'] ∨ IsField whole) :
    LineEnds s ∨ ∃ ends c rest, s = ends ++ c :: rest ∧ LineEnds ends ∧ c ∈ fieldStarts := by
  induction s generalizing line with
  | nil => exact Or.inl nofun
  | cons d s ih =>
    have grow : (d = '\r' ∨ d = '\n') →
        (LineEnds s ∨ ∃ ends c rest, s = ends ++ c :: rest ∧ LineEnds ends ∧ c ∈ fieldStarts) →
        LineEnds (d :: s) ∨ ∃ ends c rest, d :: s = ends ++ c :: rest ∧ LineEnds ends ∧ c ∈ fieldStarts := by
      rintro here (all | ⟨ends, c, rest, rfl, lineEnds, start⟩)
      · exact Or.inl (List.forall_mem_cons.mpr ⟨here, all⟩)
      · exact Or.inr ⟨d :: ends, c, rest, rfl, List.forall_mem_cons.mpr ⟨here, lineEnds⟩, start⟩
    unfold linesFrom at form
    by_cases feed : d = '\n'
    · rw [if_pos feed] at form
      exact grow (Or.inr feed) (ih (fun _ member => absurd member not_mem_nil) fun whole member =>
        form whole (mem_cons_of_mem _ member))
    rw [if_neg feed] at form
    by_cases isReturn : d = '\r'
    · apply grow (Or.inl isReturn)
      refine ih ?_ form
      intro c member
      rcases List.mem_append.mp member with before | last
      · exact returns c before
      · exact (List.mem_singleton.mp last).trans isReturn
    · right
      refine ⟨[], d, s, rfl, nofun, ?_⟩
      obtain ⟨whole, member, rest, rfl⟩ := @linesFrom_begun d line s isReturn
      rcases form _ member with nothing | blank | isField
      · simp at nothing
      · have inside : d ∈ ['\r'] := by
          rw [← blank]
          simp
        exact absurd (List.mem_singleton.mp inside) isReturn
      · cases line with
        | nil => exact isField.start
        | cons first line =>
          have start := isField.start
          rw [returns first mem_cons_self] at start
          exact absurd start (by decide)

theorem Form.shape (form : Form s) :
    LineEnds s ∨ ∃ ends c rest, s = ends ++ c :: rest ∧ LineEnds ends ∧ c ∈ fieldStarts :=
  form_shape_from (fun _ member => absurd member not_mem_nil) form

theorem linesFrom_append_feed : linesFrom line (s ++ '\n' :: t) = linesFrom line (s ++ ['\n']) ++ lines t := by
  induction s generalizing line with
  | nil =>
    rw [nil_append, nil_append, linesFrom, if_pos rfl, linesFrom, if_pos rfl]
    rfl
  | cons c s ih =>
    rw [cons_append, cons_append, linesFrom, linesFrom]
    by_cases feed : c = '\n'
    · rw [if_pos feed, if_pos feed, ih]
      rfl
    · rw [if_neg feed, if_neg feed, ih]

theorem Form.rest (form : Form s) : Form (blocks s).2 := by
  induction s using blocks_induction with
  | last s nothing =>
    rw [blocks_of_none nothing]
    exact form
  | next s block rest found ih =>
    rw [blocks_of_cut found]
    apply ih
    intro line member
    apply form
    obtain ⟨front, split⟩ : ∃ front, s = front ++ '\n' :: rest := by
      rcases cut_eq found with rfl | rfl
      · exact ⟨block ++ ['\r', '\n', '\r'], by simp⟩
      · exact ⟨block ++ ['\n'], by simp⟩
    unfold lines
    rw [split, linesFrom_append_feed]
    exact mem_append_right _ member

theorem not_blank_of_start (start : c ∈ fieldStarts) : isWhitespace c = false := by
  have all : (fieldStarts.all fun c => !isWhitespace c) = true := by decide
  have here := List.all_eq_true.mp all c start
  rwa [Bool.not_eq_true'] at here

theorem trimStart_ends (lineEnds : LineEnds ends) (start : c ∈ fieldStarts) :
    trimStart (ends ++ c :: s) = c :: s := by
  have blank : ∀ c ∈ ends, isWhitespace c = true := by
    intro c member
    rcases lineEnds c member with rfl | rfl
    all_goals decide
  have some := not_blank_of_start start
  unfold trimStart
  rw [dropWhile_append_of_pos blank, dropWhile_cons_of_neg (by rw [some]; decide)]

theorem trim_ends (lineEnds : LineEnds ends) (start : c ∈ fieldStarts) : Str.trim (ends ++ c :: s) ≠ [] := by
  have some := not_blank_of_start start
  unfold Str.trim
  rw [trimStart_ends lineEnds start, Ne, reverse_eq_nil_iff, dropWhile_eq_nil_iff]
  intro all
  have here := all c (List.mem_reverse.mpr mem_cons_self)
  rw [some] at here
  cases here

end Form

end Warp.EventStream
