import Warp.Lib.EventStream

namespace Warp.EventStream

open Str List

structure Mark where
  char : Char
  count : ℕ
  fits : count = 0 ∨ 2 ≤ count ∧ 1 < char.utf8Size

namespace Mark

def intact (c : Char) : Mark := ⟨c, 0, Or.inl rfl⟩

def shown (mark : Mark) : Str := if mark.count = 0 then [mark.char] else List.replicate mark.count replacement

variable {mark : Mark}

theorem eq_intact (whole : mark.count = 0) : mark = intact mark.char := by
  cases mark
  cases whole
  rfl

theorem count_of_ascii (ascii : mark.char.utf8Size = 1) : mark.count = 0 := by
  rcases mark.fits with whole | ⟨-, wide⟩
  · exact whole
  · omega

theorem shown_of_whole (whole : mark.count = 0) : mark.shown = [mark.char] := if_pos whole

theorem shown_of_torn (torn : mark.count ≠ 0) :
    mark.shown = replacement :: List.replicate (mark.count - 1) replacement := by
  unfold shown
  rw [if_neg torn, ← replicate_succ, Nat.sub_add_cancel (Nat.pos_of_ne_zero torn)]

theorem shown_ne_nil (mark : Mark) : mark.shown ≠ [] := by
  by_cases whole : mark.count = 0
  · rw [shown_of_whole whole]
    exact cons_ne_nil _ _
  · rw [shown_of_torn whole]
    exact cons_ne_nil _ _

theorem two_le_length (torn : mark.count ≠ 0) : 2 ≤ mark.shown.length := by
  rcases mark.fits with whole | ⟨twice, -⟩
  · exact absurd whole torn
  · unfold shown
    rw [if_neg torn, length_replicate]
    exact twice

end Mark

def plain (marks : List Mark) : Str := marks.map Mark.char

def shown (marks : List Mark) : Str := marks.flatMap Mark.shown

section Marks

variable {c : Char} {s pattern : Str} {mark : Mark} {marks before after : List Mark}

@[simp] theorem plain_nil : plain [] = [] := rfl

@[simp] theorem plain_cons : plain (mark :: marks) = mark.char :: plain marks := rfl

@[simp] theorem plain_append : plain (before ++ after) = plain before ++ plain after := map_append

@[simp] theorem shown_nil : shown [] = [] := rfl

@[simp] theorem shown_cons : shown (mark :: marks) = mark.shown ++ shown marks := flatMap_cons

@[simp] theorem shown_append : shown (before ++ after) = shown before ++ shown after := flatMap_append

theorem shown_eq_nil : shown marks = [] ↔ marks = [] := by
  cases marks with
  | nil => exact ⟨fun _ => rfl, fun _ => rfl⟩
  | cons mark marks =>
    rw [shown_cons, append_eq_nil_iff]
    constructor
    · rintro ⟨nothing, -⟩
      exact absurd nothing mark.shown_ne_nil
    · intro nothing
      cases nothing

theorem shown_of_whole (whole : ∀ mark ∈ marks, mark.count = 0) : shown marks = plain marks := by
  induction marks with
  | nil => rfl
  | cons mark marks ih =>
    obtain ⟨here, later⟩ := List.forall_mem_cons.mp whole
    rw [shown_cons, plain_cons, Mark.shown_of_whole here, ih later]
    rfl

theorem length_plain_le : (plain marks).length ≤ (shown marks).length := by
  induction marks with
  | nil => exact Nat.le_refl _
  | cons mark marks ih =>
    have some := List.length_pos_iff.mpr mark.shown_ne_nil
    rw [shown_cons, plain_cons, length_append, length_cons]
    omega

theorem length_plain_lt (torn : ∃ mark ∈ marks, mark.count ≠ 0) : (plain marks).length < (shown marks).length := by
  obtain ⟨mark, member, torn⟩ := torn
  obtain ⟨before, after, rfl⟩ := append_of_mem member
  have first := @length_plain_le before
  have second := @length_plain_le after
  have twice := Mark.two_le_length torn
  rw [plain_append, shown_append, plain_cons, shown_cons, length_append, length_append, length_append,
    length_cons]
  omega

theorem ascii_of_all (all : (pattern.all fun c => c.utf8Size == 1) = true) : ∀ c ∈ pattern, c.utf8Size = 1 :=
  fun c member => beq_iff_eq.mp (List.all_eq_true.mp all c member)

theorem prefix_of_shown (ascii : ∀ c ∈ pattern, c.utf8Size = 1) (seen : pattern <+: shown marks) :
    pattern <+: plain marks := by
  induction pattern generalizing marks with
  | nil => exact nil_prefix
  | cons c pattern ih =>
    obtain ⟨here, later⟩ := List.forall_mem_cons.mp ascii
    cases marks with
    | nil => exact seen
    | cons mark marks =>
      rw [shown_cons] at seen
      by_cases whole : mark.count = 0
      · rw [Mark.shown_of_whole whole, singleton_append, cons_prefix_cons] at seen
        rw [plain_cons, cons_prefix_cons]
        exact ⟨seen.1, ih later seen.2⟩
      · rw [Mark.shown_of_torn whole, cons_append, cons_prefix_cons] at seen
        rw [seen.1] at here
        exact absurd here (by decide)

theorem prefix_of_plain (ascii : ∀ c ∈ pattern, c.utf8Size = 1) (starts : pattern <+: plain marks) :
    ∃ rest, marks = pattern.map Mark.intact ++ rest := by
  induction pattern generalizing marks with
  | nil => exact ⟨marks, rfl⟩
  | cons c pattern ih =>
    obtain ⟨here, later⟩ := List.forall_mem_cons.mp ascii
    cases marks with
    | nil => exact absurd (List.prefix_nil.mp starts) (cons_ne_nil _ _)
    | cons mark marks =>
      rw [plain_cons, cons_prefix_cons] at starts
      obtain ⟨rfl, starts⟩ := starts
      obtain ⟨rest, rfl⟩ := ih later starts
      exact ⟨rest, by rw [map_cons, cons_append, ← Mark.eq_intact (Mark.count_of_ascii here)]⟩

theorem plain_intact : plain (s.map Mark.intact) = s := by
  induction s with
  | nil => rfl
  | cons c s ih => rw [map_cons, plain_cons, ih, Mark.intact]

theorem shown_intact : shown (s.map Mark.intact) = s := by
  rw [shown_of_whole, plain_intact]
  intro mark member
  obtain ⟨c, -, rfl⟩ := List.mem_map.mp member
  rfl

theorem shown_starts (starts : pattern.map Mark.intact <+: marks) : pattern <+: shown marks := by
  obtain ⟨rest, rfl⟩ := starts
  rw [shown_append, shown_intact]
  exact prefix_append _ _

theorem prefix_shown_iff (ascii : ∀ c ∈ pattern, c.utf8Size = 1) : pattern <+: shown marks ↔ pattern <+: plain marks := by
  constructor
  · exact prefix_of_shown ascii
  · intro starts
    obtain ⟨rest, rfl⟩ := prefix_of_plain ascii starts
    exact shown_starts (prefix_append _ _)

end Marks

section Cut

variable {s : Str} {mark : Mark} {marks block rest : List Mark} {n : ℕ}

theorem cut_replacements : cut (List.replicate n replacement ++ s) =
    (cut s).map fun (block, rest) => (List.replicate n replacement ++ block, rest) := by
  induction n with
  | zero =>
    rw [replicate_zero, nil_append]
    cases cut s with
    | none => rfl
    | some parts => rfl
  | succ n ih =>
    have crlf : ¬ ['\r', '\n', '\r', '\n'] <+: replacement :: (List.replicate n replacement ++ s) := by
      rw [cons_prefix_cons]
      exact fun starts => absurd starts.1 (by decide)
    have lf : ¬ ['\n', '\n'] <+: replacement :: (List.replicate n replacement ++ s) := by
      rw [cons_prefix_cons]
      exact fun starts => absurd starts.1 (by decide)
    rw [replicate_succ, cons_append, cut_cons crlf lf, ih, Option.map_map]
    rfl

theorem cut_shown_cons (crlf : ¬ ['\r', '\n', '\r', '\n'] <+: plain (mark :: marks))
    (lf : ¬ ['\n', '\n'] <+: plain (mark :: marks)) :
    cut (shown (mark :: marks)) = (cut (shown marks)).map fun (block, rest) => (mark.shown ++ block, rest) := by
  by_cases whole : mark.count = 0
  · have crlf' := mt (prefix_of_shown (ascii_of_all (by decide))) crlf
    have lf' := mt (prefix_of_shown (ascii_of_all (by decide))) lf
    rw [shown_cons, Mark.shown_of_whole whole, singleton_append] at crlf' lf' ⊢
    exact cut_cons crlf' lf'
  · rw [shown_cons, Mark.shown, if_neg whole]
    exact cut_replacements

theorem cut_marks (marks : List Mark) :
    cut (plain marks) = none ∧ cut (shown marks) = none ∨
      ∃ block sep rest, marks = block ++ sep.map Mark.intact ++ rest ∧ sep ∈ separators ∧
        cut (plain marks) = some (plain block, plain rest) ∧ cut (shown marks) = some (shown block, shown rest) := by
  induction marks with
  | nil => exact Or.inl ⟨rfl, rfl⟩
  | cons mark marks ih =>
    by_cases crlf : ['\r', '\n', '\r', '\n'] <+: plain (mark :: marks)
    · right
      obtain ⟨rest, split⟩ := prefix_of_plain (ascii_of_all (by decide)) crlf
      rw [split]
      exact ⟨[], ['\r', '\n', '\r', '\n'], rest, rfl, mem_cons_self,
        cut_cons_crlf (prefix_append _ _), cut_cons_crlf (prefix_append _ _)⟩
    by_cases lf : ['\n', '\n'] <+: plain (mark :: marks)
    · right
      obtain ⟨rest, split⟩ := prefix_of_plain (ascii_of_all (by decide)) lf
      rw [split]
      exact ⟨[], ['\n', '\n'], rest, rfl, mem_cons_of_mem _ mem_cons_self,
        cut_cons_lf (prefix_append _ _), cut_cons_lf (prefix_append _ _)⟩
    rw [cut_shown_cons crlf lf]
    rw [plain_cons] at crlf lf ⊢
    rw [cut_cons crlf lf]
    rcases ih with ⟨none, noneShown⟩ | ⟨block, sep, rest, split, member, found, foundShown⟩
    · left
      rw [none, noneShown]
      exact ⟨rfl, rfl⟩
    · right
      refine ⟨mark :: block, sep, rest, by rw [split]; rfl, member, ?_, ?_⟩
      · rw [found]
        rfl
      · rw [foundShown, shown_cons]
        rfl

end Cut

def TornLine (line : List Mark) : Prop := "data:".toList <+: plain line ∧ ∃ mark ∈ line, mark.count ≠ 0

/-- A torn character in a data line, where `line` is what was read of the current line. -/
def TornData (line : Str) (marks : List Mark) : Prop :=
  ∃ before mark after, marks = before ++ mark :: after ∧ mark.count ≠ 0 ∧
    "data:".toList <+: lineFrom line (plain before)

section Lines

variable {c : Char} {line : Str} {mark : Mark} {marks before : List Mark}

theorem ascii_data : ∀ c ∈ "data:".toList, c.utf8Size = 1 := ascii_of_all (by decide)

theorem tornData_nil : ¬ TornData line [] := by
  rintro ⟨before, mark, after, split, -⟩
  exact append_ne_nil_of_right_ne_nil _ (cons_ne_nil _ _) split.symm

theorem tornData_cons : TornData line (mark :: marks) ↔
    mark.count ≠ 0 ∧ "data:".toList <+: line ∨ TornData (lineFrom line [mark.char]) marks := by
  constructor
  · rintro ⟨before, other, after, split, torn, starts⟩
    rcases List.cons_eq_append_iff.mp split with ⟨rfl, same⟩ | ⟨before, rfl, rest⟩
    · cases same
      exact Or.inl ⟨torn, starts⟩
    · exact Or.inr ⟨before, other, after, rest, torn, starts⟩
  · rintro (⟨torn, starts⟩ | ⟨before, other, after, rfl, torn, starts⟩)
    · exact ⟨[], mark, marks, rfl, torn, starts⟩
    · exact ⟨mark :: before, other, after, rfl, torn, starts⟩

theorem tornLine_nil : ¬ TornLine [] := by
  rintro ⟨-, mark, member, -⟩
  cases member

theorem tornLine_concat : TornLine (marks ++ [mark]) ↔
    mark.count ≠ 0 ∧ "data:".toList <+: plain marks ∨ TornLine marks := by
  unfold TornLine
  rw [plain_append, plain_cons, plain_nil, prefix_concat_iff]
  constructor
  · rintro ⟨whole | starts, other, member, torn⟩
    · -- The prefix alone is ASCII.
      have ascii : ∀ c ∈ plain (marks ++ [mark]), c.utf8Size = 1 := by
        rw [plain_append, plain_cons, plain_nil, ← whole]
        exact ascii_data
      exact absurd (Mark.count_of_ascii (ascii _ (List.mem_map_of_mem member))) torn
    · rcases List.mem_append.mp member with inside | last
      · exact Or.inr ⟨starts, other, inside, torn⟩
      · rw [List.mem_singleton.mp last] at torn
        exact Or.inl ⟨torn, starts⟩
  · rintro (⟨torn, starts⟩ | ⟨starts, other, member, torn⟩)
    · exact ⟨Or.inr starts, mark, mem_append_right _ (mem_singleton_self mark), torn⟩
    · exact ⟨Or.inr starts, other, mem_append_left _ member, torn⟩

theorem tornLine_concat_ascii (ascii : mark.char.utf8Size = 1) : TornLine (marks ++ [mark]) ↔ TornLine marks := by
  rw [tornLine_concat, Mark.count_of_ascii ascii]
  exact or_iff_right fun none => none.1 rfl

theorem linesFrom_replacements {n : ℕ} {s : Str} :
    linesFrom line (List.replicate n replacement ++ s) = linesFrom (line ++ List.replicate n replacement) s := by
  apply linesFrom_append
  intro member
  exact absurd (eq_of_mem_replicate member) (by decide)

theorem linesFrom_shown (notFeed : mark.char ≠ '\n') {s : Str} :
    linesFrom line (mark.shown ++ s) = linesFrom (line ++ mark.shown) s := by
  unfold Mark.shown
  by_cases whole : mark.count = 0
  · rw [if_pos whole, singleton_append, linesFrom, if_neg notFeed]
  · rw [if_neg whole]
    exact linesFrom_replacements

theorem stripCarriageReturn_marks (line : List Mark) : ∃ stripped, stripCarriageReturn (plain line) = plain stripped ∧
    stripCarriageReturn (shown line) = shown stripped ∧ (TornLine line ↔ TornLine stripped) := by
  rcases eq_nil_or_concat' line with rfl | ⟨line, mark, rfl⟩
  · exact ⟨[], rfl, rfl, Iff.rfl⟩
  unfold stripCarriageReturn
  rw [plain_append, plain_cons, plain_nil, List.getLast?_concat, dropLast_concat, shown_append, shown_cons,
    shown_nil, append_nil]
  by_cases isReturn : mark.char = '\r'
  · have ascii : mark.char.utf8Size = 1 := by
      rw [isReturn]
      decide
    rw [if_pos (congrArg some isReturn), Mark.shown_of_whole (Mark.count_of_ascii ascii), List.getLast?_concat,
      dropLast_concat, if_pos (congrArg some isReturn)]
    exact ⟨line, rfl, rfl, tornLine_concat_ascii ascii⟩
  · have last : (shown line ++ mark.shown).getLast? ≠ some '\r' := by
      unfold Mark.shown
      by_cases whole : mark.count = 0
      · rw [if_pos whole, List.getLast?_concat]
        exact fun same => isReturn (Option.some.inj same)
      · rw [if_neg whole, ← Nat.sub_add_cancel (Nat.pos_of_ne_zero whole), replicate_succ', ← append_assoc,
          List.getLast?_concat]
        decide
    rw [if_neg fun same => isReturn (Option.some.inj same), if_neg last]
    refine ⟨line ++ [mark], ?_, ?_, Iff.rfl⟩
    · rw [plain_append]
      rfl
    · rw [shown_append, shown_cons, shown_nil, append_nil]

theorem linesFrom_marks (line marks : List Mark) : ∃ lines : List (List Mark),
    linesFrom (plain line) (plain marks) = lines.map plain ∧ linesFrom (shown line) (shown marks) = lines.map shown ∧
      (TornLine line ∨ TornData (plain line) marks ↔ ∃ line ∈ lines, TornLine line) := by
  induction marks generalizing line with
  | nil =>
    by_cases nothing : line = []
    · subst nothing
      refine ⟨[], rfl, rfl, ?_⟩
      constructor
      · rintro (torn | torn)
        · exact absurd torn tornLine_nil
        · exact absurd torn tornData_nil
      · rintro ⟨line, member, -⟩
        cases member
    · have plainSome : plain line ≠ [] := fun none => nothing (List.map_eq_nil_iff.mp none)
      refine ⟨[line], if_neg plainSome, if_neg (mt shown_eq_nil.mp nothing), ?_⟩
      constructor
      · rintro (torn | torn)
        · exact ⟨line, mem_singleton_self line, torn⟩
        · exact absurd torn tornData_nil
      · rintro ⟨other, member, torn⟩
        rw [List.mem_singleton.mp member] at torn
        exact Or.inl torn
  | cons mark marks ih =>
    by_cases feed : mark.char = '\n'
    · have whole : mark.count = 0 := by
        apply Mark.count_of_ascii
        rw [feed]
        decide
      obtain ⟨lines, plains, showns, torn⟩ := ih []
      obtain ⟨stripped, stripPlain, stripShown, stripTorn⟩ := stripCarriageReturn_marks line
      have cons : TornData (plain line) (mark :: marks) ↔ TornData [] marks := by
        rw [tornData_cons, whole, lineFrom, if_pos feed]
        exact or_iff_right fun none => none.1 rfl
      refine ⟨stripped :: lines, ?_, ?_, ?_⟩
      · rw [plain_cons, linesFrom, if_pos feed, stripPlain, map_cons, ← plains]
        rfl
      · rw [shown_cons, Mark.shown_of_whole whole, singleton_append, linesFrom, if_pos feed, stripShown,
          map_cons, ← showns]
        rfl
      · rw [exists_mem_cons_iff, ← torn, ← stripTorn, cons]
        exact or_congr_right (or_iff_right tornLine_nil).symm
    · obtain ⟨lines, plains, showns, torn⟩ := ih (line ++ [mark])
      refine ⟨lines, ?_, ?_, ?_⟩
      · rw [plain_cons, linesFrom, if_neg feed, ← plains, plain_append]
        rfl
      · rw [shown_cons, linesFrom_shown feed, ← showns, shown_append, shown_cons, shown_nil, append_nil]
      · rw [← torn, tornLine_concat, tornData_cons, lineFrom, if_neg feed, lineFrom, plain_append]
        constructor
        · rintro (torn | torn | torn)
          · exact Or.inl (Or.inr torn)
          · exact Or.inl (Or.inl torn)
          · exact Or.inr torn
        · rintro ((torn | torn) | torn)
          · exact Or.inr (Or.inl torn)
          · exact Or.inl torn
          · exact Or.inr (Or.inr torn)

end Lines

def Torn (marks : List Mark) : Prop := ∃ mark ∈ marks, mark.count ≠ 0

section Data

variable {mark : Mark} {marks line block : List Mark} {values : List (List Mark)}

theorem not_torn (whole : ¬ Torn marks) : ∀ mark ∈ marks, mark.count = 0 :=
  fun mark member => not_not.mp fun torn => whole ⟨mark, member, torn⟩

theorem lineData_concat_return {line : Str} : lineData (line ++ ['\r']) = lineData line := by
  unfold lineData
  rw [rdropWhile_concat_pos _ _ _ (by decide)]

theorem lineData_concat {line : Str} {c : Char} (other : c ≠ '\r') : lineData (line ++ [c]) =
    if "data:".toList <+: line ++ [c] then some (trimStart ((line ++ [c]).drop 5)) else none := by
  unfold lineData
  rw [rdropWhile_concat_neg]
  simpa using other

theorem lineData_shown_concat {line : Str} (other : mark.char ≠ '\r') : lineData (line ++ mark.shown) =
    if "data:".toList <+: line ++ mark.shown then some (trimStart ((line ++ mark.shown).drop 5)) else none := by
  unfold Mark.shown
  by_cases whole : mark.count = 0
  · rw [if_pos whole]
    exact lineData_concat other
  · rw [if_neg whole, ← Nat.sub_add_cancel (Nat.pos_of_ne_zero whole), replicate_succ', ← append_assoc]
    exact lineData_concat (by decide)

theorem lineData_marks (line : List Mark) :
    (lineData (plain line) = none ∧ lineData (shown line) = none ∧ ¬ TornLine line) ∨
      ∃ value : List Mark, lineData (plain line) = some (trimStart (plain value)) ∧
        lineData (shown line) = some (trimStart (shown value)) ∧ (TornLine line ↔ Torn value) := by
  induction line using List.reverseRecOn with
  | nil => exact Or.inl ⟨rfl, rfl, tornLine_nil⟩
  | append_singleton line mark ih =>
    rw [plain_append, plain_cons, plain_nil, shown_append, shown_cons, shown_nil, append_nil]
    by_cases isReturn : mark.char = '\r'
    · have ascii : mark.char.utf8Size = 1 := by
        rw [isReturn]
        decide
      rw [Mark.shown_of_whole (Mark.count_of_ascii ascii), isReturn, lineData_concat_return, lineData_concat_return,
        tornLine_concat_ascii ascii]
      exact ih
    rw [lineData_concat isReturn, lineData_shown_concat isReturn]
    have plainEq : plain line ++ [mark.char] = plain (line ++ [mark]) := by
      rw [plain_append]
      rfl
    have shownEq : shown line ++ mark.shown = shown (line ++ [mark]) := by
      rw [shown_append, shown_cons, shown_nil, append_nil]
    rw [plainEq, shownEq]
    by_cases starts : "data:".toList <+: plain (line ++ [mark])
    · obtain ⟨value, split⟩ := prefix_of_plain ascii_data starts
      rw [if_pos starts, if_pos ((prefix_shown_iff ascii_data).mpr starts), split, plain_append, shown_append, plain_intact,
        shown_intact]
      right
      refine ⟨value, rfl, rfl, ?_⟩
      unfold TornLine
      rw [plain_append, plain_intact]
      constructor
      · rintro ⟨-, other, member, torn⟩
        rcases List.mem_append.mp member with inside | inside
        · obtain ⟨c, -, rfl⟩ := List.mem_map.mp inside
          exact absurd rfl torn
        · exact ⟨other, inside, torn⟩
      · rintro ⟨other, member, torn⟩
        exact ⟨prefix_append _ _, other, mem_append_right _ member, torn⟩
    · rw [if_neg starts, if_neg (mt (prefix_of_shown ascii_data) starts)]
      exact Or.inl ⟨rfl, rfl, fun torn => starts torn.1⟩

theorem trimStart_append {s t : Str} (some : ¬ ∀ c ∈ s, isWhitespace c = true) :
    trimStart (s ++ t) = trimStart s ++ t := by
  unfold trimStart
  rw [dropWhile_append, if_neg]
  intro nothing
  apply some
  exact List.dropWhile_eq_nil_iff.mp (List.isEmpty_iff.mp nothing)

theorem trimStart_of_blank {s t : Str} (blank : ∀ c ∈ s, isWhitespace c = true) :
    trimStart (s ++ t) = trimStart t := dropWhile_append_of_pos blank

theorem length_trimStart_le {s : Str} : (trimStart s).length ≤ s.length :=
  (dropWhile_sublist _).length_le

theorem length_trimStart_lt (torn : Torn marks) : (trimStart (plain marks)).length < (trimStart (shown marks)).length := by
  induction marks with
  | nil =>
    obtain ⟨mark, member, -⟩ := torn
    cases member
  | cons mark marks ih =>
    rw [plain_cons, shown_cons]
    have longer := @length_plain_le marks
    by_cases whole : mark.count = 0
    · have later : Torn marks := by
        obtain ⟨other, member, torn⟩ := torn
        rcases List.mem_cons.mp member with rfl | member
        · exact absurd whole torn
        · exact ⟨other, member, torn⟩
      rw [Mark.shown_of_whole whole]
      by_cases blank : isWhitespace mark.char = true
      · have all : ∀ c ∈ [mark.char], isWhitespace c = true := List.forall_mem_singleton.mpr blank
        rw [trimStart_of_blank all, ← singleton_append, trimStart_of_blank all]
        exact ih later
      · have some : ¬ ∀ c ∈ [mark.char], isWhitespace c = true := fun all => blank (all _ (mem_singleton_self _))
        rw [trimStart_append some, ← singleton_append, trimStart_append some, length_append,
          length_append]
        have strict : (plain marks).length < (shown marks).length := length_plain_lt later
        omega
    · have some : ¬ ∀ c ∈ mark.shown, isWhitespace c = true := by
        rw [Mark.shown_of_torn whole]
        exact fun all => absurd (all _ mem_cons_self) (by decide)
      have kept : trimStart mark.shown = mark.shown := by
        rw [Mark.shown_of_torn whole]
        rfl
      have twice := Mark.two_le_length whole
      have shorter := @length_trimStart_le (mark.char :: plain marks)
      rw [length_cons] at shorter
      rw [trimStart_append some, kept, length_append]
      omega

theorem filterMap_lineData (lines : List (List Mark)) : ∃ values : List (List Mark),
    (lines.map plain).filterMap lineData = values.map (fun value => trimStart (plain value)) ∧
      (lines.map shown).filterMap lineData = values.map (fun value => trimStart (shown value)) ∧
      ((∃ line ∈ lines, TornLine line) ↔ ∃ value ∈ values, Torn value) := by
  induction lines with
  | nil => exact ⟨[], rfl, rfl, by simp only [not_mem_nil, false_and]⟩
  | cons line lines ih =>
    obtain ⟨values, plains, showns, torn⟩ := ih
    rw [map_cons, map_cons, exists_mem_cons_iff, torn]
    rcases lineData_marks line with ⟨nonePlain, noneShown, whole⟩ | ⟨value, somePlain, someShown, tornValue⟩
    · rw [filterMap_cons_none nonePlain, filterMap_cons_none noneShown]
      exact ⟨values, plains, showns, or_iff_right whole⟩
    · rw [filterMap_cons_some somePlain, filterMap_cons_some someShown, plains, showns, tornValue]
      exact ⟨value :: values, rfl, rfl, (exists_mem_cons_iff _ _ _).symm⟩

theorem data_marks (block : List Mark) : ∃ values : List (List Mark),
    data (plain block) = join (values.map fun value => trimStart (plain value)) ∧
      data (shown block) = join (values.map fun value => trimStart (shown value)) ∧
      (TornData [] block ↔ ∃ value ∈ values, Torn value) := by
  obtain ⟨lines, plains, showns, tornLines⟩ := linesFrom_marks [] block
  obtain ⟨values, plainValues, shownValues, tornValues⟩ := filterMap_lineData lines
  have torn : TornData [] block ↔ ∃ value ∈ values, Torn value := by
    rw [← tornValues, ← tornLines]
    exact (or_iff_right tornLine_nil).symm
  refine ⟨values, ?_, ?_, torn⟩
  · rw [← plainValues, ← plains]
    rfl
  · rw [← shownValues, ← showns]
    rfl

theorem length_join_cons {first : Str} {rest : List Str} :
    (join (first :: rest)).length = first.length + (if rest = [] then 0 else (join rest).length + 1) := by
  cases rest with
  | nil => rw [join_singleton, if_pos rfl, Nat.add_zero]
  | cons second rest =>
    rw [join_cons_cons, length_append, length_cons, if_neg (cons_ne_nil _ _)]

theorem length_trimStart_mono (marks : List Mark) :
    (trimStart (plain marks)).length ≤ (trimStart (shown marks)).length := by
  by_cases torn : Torn marks
  · exact Nat.le_of_lt (length_trimStart_lt torn)
  · rw [shown_of_whole (not_torn torn)]

theorem length_join_le (values : List (List Mark)) :
    (join (values.map fun value => trimStart (plain value))).length ≤
      (join (values.map fun value => trimStart (shown value))).length := by
  induction values with
  | nil => exact Nat.le_refl _
  | cons value values ih =>
    have first := length_trimStart_mono value
    rw [map_cons, map_cons, length_join_cons, length_join_cons]
    by_cases last : values = []
    · subst last
      exact Nat.add_le_add_right first _
    · rw [if_neg (mt List.map_eq_nil_iff.mp last), if_neg (mt List.map_eq_nil_iff.mp last)]
      omega

theorem length_join_lt (torn : ∃ value ∈ values, Torn value) :
    (join (values.map fun value => trimStart (plain value))).length <
      (join (values.map fun value => trimStart (shown value))).length := by
  induction values with
  | nil =>
    obtain ⟨value, member, -⟩ := torn
    cases member
  | cons value values ih =>
    have first := length_trimStart_mono value
    have later := length_join_le values
    rw [map_cons, map_cons, length_join_cons, length_join_cons]
    rcases (exists_mem_cons_iff _ _ _).mp torn with here | after
    · have strict := length_trimStart_lt here
      by_cases last : values = []
      · subst last
        exact Nat.add_lt_add_right strict _
      · rw [if_neg (mt List.map_eq_nil_iff.mp last), if_neg (mt List.map_eq_nil_iff.mp last)]
        omega
    · have strict := ih after
      have last : values ≠ [] := by
        rintro rfl
        obtain ⟨other, member, -⟩ := after
        cases member
      rw [if_neg (mt List.map_eq_nil_iff.mp last), if_neg (mt List.map_eq_nil_iff.mp last)]
      omega

theorem data_shown (whole : ¬ TornData [] block) : data (shown block) = data (plain block) := by
  obtain ⟨values, plainData, shownData, torn⟩ := data_marks block
  rw [plainData, shownData]
  apply congrArg join
  apply map_congr_left
  intro value member
  rw [shown_of_whole (not_torn fun here => whole (torn.mpr ⟨value, member, here⟩))]

theorem length_data_le (block : List Mark) : (data (plain block)).length ≤ (data (shown block)).length := by
  obtain ⟨values, plainData, shownData, -⟩ := data_marks block
  rw [plainData, shownData]
  exact length_join_le values

theorem length_data_lt (torn : TornData [] block) : (data (plain block)).length < (data (shown block)).length := by
  obtain ⟨values, plainData, shownData, tornValues⟩ := data_marks block
  rw [plainData, shownData]
  exact length_join_lt (tornValues.mp torn)

end Data

/-- A torn character in a data line that a blank line comes after. -/
def TornPayload (marks : List Mark) : Prop :=
  ∃ before mark after, marks = before ++ mark :: after ∧ mark.count ≠ 0 ∧
    "data:".toList <+: lineFrom [] (plain before) ∧ cut (plain after) ≠ none

section Payloads

variable {marks block rest : List Mark} {sep : Str}

theorem not_tornPayload (none : cut (plain marks) = none) : ¬ TornPayload marks := by
  rintro ⟨before, mark, after, rfl, -, -, found⟩
  apply @cut_suffix (plain before ++ [mark.char]) (plain after) found
  rw [plain_append, plain_cons] at none
  rw [append_assoc]
  exact none

theorem tornPayload_cut (separator : sep ∈ separators) :
    TornPayload (block ++ sep.map Mark.intact ++ rest) ↔ TornData [] block ∨ TornPayload rest := by
  have fresh : ∀ before : List Mark, lineFrom [] (plain (block ++ sep.map Mark.intact ++ before)) =
      lineFrom [] (plain before) := by
    intro before
    rw [plain_append, plain_append, plain_intact, lineFrom_append, lineFrom_append, lineFrom_separator separator]
  constructor
  · rintro ⟨before, mark, after, split, torn, starts, ends⟩
    rcases List.append_eq_append_iff.mp split with ⟨before', rfl, later⟩ | ⟨middle, within, later⟩
    · rw [fresh] at starts
      exact Or.inr ⟨before', mark, after, later, torn, starts, ends⟩
    rcases List.cons_eq_append_iff.mp later with ⟨rfl, same⟩ | ⟨inside, rfl, -⟩
    · rw [append_nil] at within
      rw [← within, ← append_nil (block ++ sep.map Mark.intact), fresh] at starts
      exact Or.inr ⟨[], mark, after, same, torn, starts, ends⟩
    rcases List.append_eq_append_iff.mp within with ⟨inner, rfl, rest'⟩ | ⟨inner, rfl, rest'⟩
    · have member : mark ∈ sep.map Mark.intact := by
        rw [rest']
        exact mem_append_right _ mem_cons_self
      obtain ⟨c, -, rfl⟩ := List.mem_map.mp member
      exact absurd rfl torn
    · rcases List.cons_eq_append_iff.mp rest' with ⟨rfl, same⟩ | ⟨inside', rfl, -⟩
      · have member : mark ∈ sep.map Mark.intact := by
          rw [same]
          exact mem_cons_self
        obtain ⟨c, -, rfl⟩ := List.mem_map.mp member
        exact absurd rfl torn
      · exact Or.inl ⟨before, mark, inside', rfl, torn, starts⟩
  · rintro (⟨before, mark, after, rfl, torn, starts⟩ | ⟨before, mark, after, rfl, torn, starts, ends⟩)
    · refine ⟨before, mark, after ++ (sep.map Mark.intact ++ rest), ?_, torn, starts, ?_⟩
      · simp only [append_assoc, cons_append]
      · rw [plain_append, plain_append, plain_intact]
        exact cut_separator separator
    · refine ⟨block ++ sep.map Mark.intact ++ before, mark, after, ?_, torn, ?_, ends⟩
      · simp only [append_assoc]
      · rw [fresh]
        exact starts

theorem blocks_marks (marks : List Mark) : ∃ (blocks' : List (List Mark)) (rest : List Mark),
    blocks (plain marks) = (blocks'.map plain, plain rest) ∧ blocks (shown marks) = (blocks'.map shown, shown rest) ∧
      rest <:+ marks ∧ (TornPayload marks ↔ ∃ block ∈ blocks', TornData [] block) := by
  obtain ⟨n, bound⟩ : ∃ n, marks.length ≤ n := ⟨marks.length, Nat.le_refl _⟩
  induction n generalizing marks with
  | zero =>
    obtain rfl := List.length_eq_zero_iff.mp (Nat.le_zero.mp bound)
    refine ⟨[], [], rfl, rfl, suffix_refl _, ?_⟩
    constructor
    · exact fun torn => absurd torn (not_tornPayload rfl)
    · rintro ⟨block, member, -⟩
      cases member
  | succ n ih =>
    rcases cut_marks marks with ⟨none, noneShown⟩ | ⟨block, sep, rest, split, separator, found, foundShown⟩
    · refine ⟨[], marks, blocks_of_none none, blocks_of_none noneShown, suffix_refl _, ?_⟩
      constructor
      · exact fun torn => absurd torn (not_tornPayload none)
      · rintro ⟨block, member, -⟩
        cases member
    · have shorter : rest.length < marks.length := by
        have shorter := length_lt_of_cut found
        unfold plain at shorter
        rw [length_map, length_map] at shorter
        exact shorter
      obtain ⟨blocks', last, plains, showns, suffix, torn⟩ := ih rest (by omega)
      refine ⟨block :: blocks', last, ?_, ?_, ?_, ?_⟩
      · rw [blocks_of_cut found, plains]
        rfl
      · rw [blocks_of_cut foundShown, showns]
        rfl
      · rw [split]
        exact suffix.trans (suffix_append _ _)
      · rw [split, tornPayload_cut separator, exists_mem_cons_iff, torn]

theorem flatten_payloads {s : Str} : (payloads s).flatten = ((blocks s).1.map data).flatten :=
  flatten_filter_ne_nil

theorem length_flatten_le (blocks : List (List Mark)) :
    ((blocks.map plain).map data).flatten.length ≤ ((blocks.map shown).map data).flatten.length := by
  induction blocks with
  | nil => exact Nat.le_refl _
  | cons block blocks ih =>
    simp only [map_cons, flatten_cons, length_append]
    exact Nat.add_le_add (length_data_le block) ih

theorem payloads_shown (marks : List Mark) : payloads (shown marks) = payloads (plain marks) ↔ ¬ TornPayload marks := by
  obtain ⟨blocks', rest, plains, showns, -, torn⟩ := blocks_marks marks
  rw [torn]
  constructor
  · rintro same ⟨block, member, tornBlock⟩
    have lengths := congrArg (fun payloads => payloads.flatten.length) same
    simp only [flatten_payloads, plains, showns] at lengths
    obtain ⟨before, after, rfl⟩ := append_of_mem member
    have first := length_flatten_le before
    have last := length_flatten_le after
    have strict := length_data_lt tornBlock
    simp only [map_append, map_cons, flatten_append, flatten_cons, length_append] at lengths
    omega
  · intro whole
    unfold payloads
    rw [plains, showns, List.map_map, List.map_map]
    apply congrArg
    apply map_congr_left
    intro block member
    exact data_shown fun tornBlock => whole ⟨block, member, tornBlock⟩

end Payloads

section Take

variable {mark : Mark} {marks : List Mark} {count : ℕ}

theorem shown_replacements (all : ∀ c ∈ plain marks, c = replacement) :
    shown marks = List.replicate (shown marks).length replacement := by
  apply eq_replicate_of_mem
  intro c member
  obtain ⟨mark, inside, member⟩ := List.mem_flatMap.mp member
  have char := all mark.char (List.mem_map_of_mem inside)
  unfold Mark.shown at member
  split at member
  · exact (List.mem_singleton.mp member).trans char
  · exact eq_of_mem_replicate member

theorem plain_take : plain (marks.take count) = (plain marks).take count := map_take

theorem take_shown_of_replacements (all : ∀ c ∈ (plain marks).take count, c = replacement) (more : ℕ)
    (enough : more ≤ (shown (marks.take count)).length) :
    (shown marks).take more = List.replicate more replacement := by
  have seen := @shown_replacements (marks.take count) (by rw [plain_take]; exact all)
  have split : shown marks = shown (marks.take count) ++ shown (marks.drop count) := by
    rw [← shown_append, take_append_drop]
  rw [split, take_append_of_le_length enough, seen, take_replicate, Nat.min_eq_left enough]

theorem take_plain_of_replacements (below : count ≤ (plain marks).length)
    (all : ∀ c ∈ (plain marks).take count, c = replacement) :
    (plain marks).take count = List.replicate count replacement := by
  have replicated := eq_replicate_of_mem all
  rw [length_take, Nat.min_eq_left below] at replicated
  exact replicated

theorem take_shown (torn : mark.count ≠ 0) (below : count ≤ (plain (mark :: marks)).length) :
    (shown (mark :: marks)).take count = (plain (mark :: marks)).take count ↔
      ∀ c ∈ (plain (mark :: marks)).take count, c = replacement := by
  have length : (plain (mark :: marks)).length = (mark :: marks).length := length_map _
  constructor
  · intro same
    have upTo : ∀ n ≤ count, ∀ c ∈ (plain (mark :: marks)).take n, c = replacement := by
      intro n
      induction n with
      | zero => exact fun _ c member => absurd member not_mem_nil
      | succ n ih =>
        intro bound
        have before := ih (by omega)
        -- The characters up to here are seen as more of them, as the first one is torn.
        have enough : n + 1 ≤ (shown ((mark :: marks).take n)).length ∨ n = 0 := by
          cases n with
          | zero => exact Or.inr rfl
          | succ n =>
            left
            have longer := @length_plain_lt ((mark :: marks).take (n + 1)) ⟨mark, mem_cons_self, torn⟩
            rw [plain_take, length_take, length] at longer
            rw [length] at below
            rw [Nat.min_eq_left (by omega)] at longer
            omega
        have seen : (shown (mark :: marks)).take (n + 1) = List.replicate (n + 1) replacement := by
          rcases enough with enough | rfl
          · exact take_shown_of_replacements before _ enough
          · rw [shown_cons, Mark.shown_of_torn torn]
            rfl
        have sameUpTo : (shown (mark :: marks)).take (n + 1) = (plain (mark :: marks)).take (n + 1) := by
          have shorter := congrArg (List.take (n + 1)) same
          rw [take_take, take_take, Nat.min_eq_left bound] at shorter
          exact shorter
        intro c member
        rw [← sameUpTo, seen] at member
        exact eq_of_mem_replicate member
    exact upTo count (Nat.le_refl _)
  · intro all
    rw [take_plain_of_replacements below all]
    apply take_shown_of_replacements all
    have longer := @length_plain_le ((mark :: marks).take count)
    rw [plain_take, length_take, Nat.min_eq_left below] at longer
    exact longer

end Take

section Decoding

variable {positions : List ℕ} {start : ℕ} {s out : Str} {marks : List Mark}

def TornAt (positions : List ℕ) (start : ℕ) (marks : List Mark) : Prop :=
  ∀ before mark after, marks = before ++ mark :: after →
    (mark.count ≠ 0 ↔ Str.Torn positions (start + byteLen (plain before)) mark.char)

theorem TornAt.cons {mark : Mark} (here : mark.count ≠ 0 ↔ Str.Torn positions start mark.char)
    (later : TornAt positions (start + mark.char.utf8Size) marks) : TornAt positions start (mark :: marks) := by
  intro before other after split
  rcases List.cons_eq_append_iff.mp split with ⟨rfl, same⟩ | ⟨before, rfl, rest⟩
  · cases same
    exact here
  · rw [plain_cons, byteLen_cons, ← Nat.add_assoc]
    exact later before other after rest

theorem marks_of_decoded (decoded : Decoded positions start s out) :
    ∃ marks, plain marks = s ∧ shown marks = out ∧ TornAt positions start marks := by
  induction decoded with
  | nil start =>
    refine ⟨[], rfl, rfl, ?_⟩
    intro before mark after split
    exact absurd split.symm (append_ne_nil_of_right_ne_nil _ (cons_ne_nil _ _))
  | @whole start c s out intact rest ih =>
    obtain ⟨marks, rfl, rfl, torn⟩ := ih
    refine ⟨Mark.intact c :: marks, rfl, rfl, .cons ?_ torn⟩
    exact iff_of_false (fun some => some rfl) intact
  | @torn start count c s out tears twice rest ih =>
    obtain ⟨marks, rfl, rfl, torn⟩ := ih
    have wide : 1 < c.utf8Size := by
      obtain ⟨position, -, above, below⟩ := tears
      omega
    have some : count ≠ 0 := by omega
    refine ⟨⟨c, count, Or.inr ⟨twice, wide⟩⟩ :: marks, rfl, ?_, .cons (iff_of_true some tears) torn⟩
    rw [shown_cons, Mark.shown, if_neg some]

/-- A position inside of a character of a data line that a blank line comes after. -/
def TearsPayload (positions : List ℕ) (s : Str) : Prop :=
  ∃ before c after, s = before ++ c :: after ∧ Str.Torn positions (byteLen before) c ∧
    "data:".toList <+: lineFrom [] before ∧ cut after ≠ none

theorem tearsPayload_iff (torn : TornAt positions 0 marks) :
    TearsPayload positions (plain marks) ↔ TornPayload marks := by
  constructor
  · rintro ⟨before, c, after, split, tears, starts, ends⟩
    obtain ⟨before, marks', rfl, rfl, rest⟩ := List.map_eq_append_iff.mp split
    obtain ⟨mark, after, rfl, rfl, rfl⟩ := List.map_eq_cons_iff.mp rest
    have here := torn before mark after rfl
    rw [Nat.zero_add] at here
    exact ⟨before, mark, after, rfl, here.mpr tears, starts, ends⟩
  · rintro ⟨before, mark, after, rfl, some, starts, ends⟩
    have here := torn before mark after rfl
    rw [Nat.zero_add] at here
    exact ⟨plain before, mark.char, plain after, plain_append, here.mp some, starts, ends⟩

end Decoding

end Warp.EventStream
