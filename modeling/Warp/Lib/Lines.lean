import Mathlib.Tactic

namespace Warp

open List

abbrev Str := List Char

namespace Str

def stripCarriageReturn (line : Str) : Str := if line.getLast? = some '\r' then line.dropLast else line

/-- The lines of a string, where `line` is what was read of the current one. -/
def linesFrom (line : Str) : Str → List Str
  | [] => if line = [] then [] else [line]
  | c :: s => if c = '\n' then stripCarriageReturn line :: linesFrom [] s else linesFrom (line ++ [c]) s

def lines (s : Str) : List Str := linesFrom [] s

def join (lines : List Str) : Str := ['\n'].intercalate lines

/-- The characters of the Unicode property `White_Space`. -/
def isWhitespace (c : Char) : Bool :=
  let code := c.toNat
  (9 ≤ code && code ≤ 13) || code = 0x20 || code = 0x85 || code = 0xA0 || code = 0x1680 ||
    (0x2000 ≤ code && code ≤ 0x200A) || code = 0x2028 || code = 0x2029 || code = 0x202F || code = 0x205F ||
    code = 0x3000

def trimStart (s : Str) : Str := s.dropWhile isWhitespace

def trim (s : Str) : Str := (s.trimStart.reverse.dropWhile isWhitespace).reverse

section Lines

variable {line s : Str}

theorem linesFrom_append (plain : '\n' ∉ line) (start : Str) :
    linesFrom start (line ++ s) = linesFrom (start ++ line) s := by
  induction line generalizing start with
  | nil => rw [append_nil, nil_append]
  | cons c line ih =>
    rw [mem_cons, not_or] at plain
    obtain ⟨notFeed, plain⟩ := plain
    rw [cons_append, linesFrom, if_neg (Ne.symm notFeed), ih plain, append_assoc, singleton_append]

theorem lines_line (plain : '\n' ∉ line) : lines line = if line = [] then [] else [line] := by
  have read := linesFrom_append (s := []) plain []
  rw [append_nil, nil_append] at read
  exact read

theorem lines_line_feed (plain : '\n' ∉ line) : lines (line ++ '\n' :: s) = stripCarriageReturn line :: lines s := by
  unfold lines
  rw [linesFrom_append plain, nil_append, linesFrom, if_pos rfl]

theorem linesFrom_plain {start : Str} (plain : '\n' ∉ start) : ∀ line ∈ linesFrom start s, '\n' ∉ line := by
  induction s generalizing start with
  | nil =>
    intro line member
    unfold linesFrom at member
    by_cases nothing : start = []
    · rw [if_pos nothing] at member
      cases member
    · rw [if_neg nothing, mem_singleton] at member
      exact member ▸ plain
  | cons c s ih =>
    intro line member
    unfold linesFrom at member
    by_cases isFeed : c = '\n'
    · rw [if_pos isFeed] at member
      rcases List.mem_cons.mp member with rfl | later
      · unfold stripCarriageReturn
        split
        · exact fun inside => plain (dropLast_subset _ inside)
        · exact plain
      · exact ih not_mem_nil line later
    · rw [if_neg isFeed] at member
      apply ih _ line member
      rw [mem_append, mem_singleton, not_or]
      exact ⟨plain, Ne.symm isFeed⟩

theorem lines_plain : ∀ line ∈ lines s, '\n' ∉ line := linesFrom_plain not_mem_nil

end Lines

section Join

variable {rest : List Str}

theorem join_singleton (line : Str) : join [line] = line := by simp [join]

theorem join_cons_cons (line second : Str) (rest : List Str) :
    join (line :: second :: rest) = line ++ '\n' :: join (second :: rest) := by simp [join]

theorem length_lines_join {pattern : List Str} (nonempty : pattern ≠ []) (plain : ∀ line ∈ pattern, '\n' ∉ line) :
    (lines (join pattern)).length = if pattern.getLast? = some [] then pattern.length - 1 else pattern.length := by
  induction pattern with
  | nil => exact absurd rfl nonempty
  | cons line rest ih =>
    obtain ⟨linePlain, restPlain⟩ := List.forall_mem_cons.mp plain
    cases rest with
    | nil =>
      rw [join_singleton, lines_line linePlain]
      by_cases blank : line = [] <;> simp [blank]
    | cons second rest =>
      rw [join_cons_cons, lines_line_feed linePlain, length_cons, ih (cons_ne_nil _ _) restPlain,
        List.getLast?_cons_cons]
      simp only [length_cons]
      split <;> omega

end Join

end Str

end Warp
