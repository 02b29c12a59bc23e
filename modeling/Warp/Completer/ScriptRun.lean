import Mathlib.Data.List.TakeWhile
import Warp.Completer.CommandRun

namespace Warp.Completer

open Parser List

variable {source : Str} {pos fuel : ℕ} {tokens rest : List Token} {r : Bool} {bracket : Bracket}

section Waiting

variable {lists inner : List (Option Bracket)}

theorem Script.waiting_suffix : ∀ (s : Script) (lists inner : List (Option Bracket)), lists ≠ [] →
    s.waiting lists = some inner → inner <:+ lists ∧ inner ≠ []
  | .nil, lists, inner, nonempty, waits => by
    cases waits
    exact ⟨suffix_refl _, nonempty⟩
  | .blank _ rest, lists, inner, nonempty, waits => waiting_suffix rest lists inner nonempty waits
  | .separator _ rest, lists, inner, nonempty, waits => waiting_suffix rest lists inner nonempty waits
  | .command _ rest, lists, inner, nonempty, waits => waiting_suffix rest lists inner nonempty waits
  | .group bracket body rest, lists, inner, nonempty, waits => by
    rw [Script.waiting] at waits
    match isMiddle : body.waiting (some bracket :: lists) with
    | none => simp [isMiddle] at waits
    | some middle =>
      simp only [isMiddle] at waits
      split_ifs at waits with ended
      obtain ⟨later, remains⟩ := waiting_suffix rest _ inner ended waits
      refine ⟨later.trans ?_, remains⟩
      obtain ⟨within, -⟩ := waiting_suffix body _ middle (cons_ne_nil _ _) isMiddle
      rcases List.suffix_cons_iff.mp within with whole | below
      · rw [whole, dropWhile_cons_of_pos (by simp)]
        exact dropWhile_suffix _
      · exact (dropWhile_suffix _).trans below

theorem Script.waiting_open : ∀ (s : Script) (lists : List (Option Bracket)), none ∈ lists →
    ∃ inner, s.waiting lists = some inner ∧ none ∈ inner
  | .nil, lists, open' => ⟨lists, rfl, open'⟩
  | .blank _ rest, lists, open' => waiting_open rest lists open'
  | .separator _ rest, lists, open' => waiting_open rest lists open'
  | .command _ rest, lists, open' => waiting_open rest lists open'
  | .group bracket body rest, lists, open' => by
    obtain ⟨middle, isMiddle, still⟩ := waiting_open body (some bracket :: lists) (mem_cons_of_mem _ open')
    have kept : none ∈ middle.dropWhile fun list => list = some bracket := by
      rw [← takeWhile_append_dropWhile (p := fun list => list = some bracket) (l := middle)] at still
      rcases List.mem_append.mp still with dropped | kept
      · simpa using mem_takeWhile_imp dropped
      · exact kept
    rw [Script.waiting, isMiddle]
    dsimp only
    rw [if_neg (ne_nil_of_mem kept)]
    exact waiting_open rest _ kept

end Waiting

section Frames

/-- The lists that the parser is in, the innermost first: their delimiters, and what is left of their fuel. -/
abbrev Frames := List (Option Bracket × ℕ)

def unwind : Frames → Parser → List (Spanned Command) × Parser
  | [], p => ([], p)
  | (list, fuel) :: frames, p =>
    let (commands, p) := parseCommandList (list.map Bracket.closing) fuel p
    let (more, p) := unwind frames p
    (commands ++ more, p)

/-- From one state of the lists the parser gets to another with these commands. -/
def Advances (frames : Frames) (p : Parser) (commands : List (Spanned Command)) (frames' : Frames) (p' : Parser) : Prop :=
  unwind frames p = (commands ++ (unwind frames' p').1, (unwind frames' p').2)

variable {frames frames' frames'' : Frames} {p p' p'' : Parser} {commands more : List (Spanned Command)}
  {list : Option Bracket}

theorem Advances.refl : Advances frames p [] frames p := rfl

theorem Advances.trans (first : Advances frames p commands frames' p') (second : Advances frames' p' more frames'' p'') :
    Advances frames p (commands ++ more) frames'' p'' := by
  unfold Advances at *
  rw [first, second, append_assoc]

theorem parseCommandList_skip (delimiter : Option Token) (p : Parser) :
    parseCommandList delimiter (fuel + 1) p.skipWhitespace = parseCommandList delimiter (fuel + 1) p := by
  rw [parseCommandList, parseCommandList, skipWhitespace_idem]

theorem advances_skip : Advances ((list, fuel + 1) :: frames) p.skipWhitespace [] ((list, fuel + 1) :: frames) p := by
  unfold Advances unwind
  rw [parseCommandList_skip]
  rfl

theorem advances_blank (blank : Str) : Advances ((list, fuel + 1) :: frames) (reading pos (.whitespace blank :: rest) r) []
    ((list, fuel + 1) :: frames) (reading (pos + blank.length) rest r) := by
  unfold Advances unwind
  rw [← parseCommandList_skip, skipWhitespace_blank, parseCommandList_skip]
  rfl

theorem closing_ne (t : Token) (open' : t.isValidCommandSeparator ∨ t.isCommandTerminator = false) :
    list.map Bracket.closing ≠ some t := by
  intro same
  cases list with
  | none => cases same
  | some bracket => cases bracket <;> cases same <;> rcases open' with h | h <;> cases h

theorem advances_separator {t : Token} (separates : t.isValidCommandSeparator) :
    Advances ((list, fuel + 1) :: frames) (reading pos (t :: rest) r) [] ((list, fuel) :: frames)
      (reading (pos + t.asStr.length) rest r) := by
  unfold Advances unwind
  have next : parseCommandList (list.map Bracket.closing) (fuel + 1) (reading pos (t :: rest) r) =
      parseCommandList (list.map Bracket.closing) fuel (reading (pos + t.asStr.length) rest r) := by
    have solid : t.isWhitespace = false := by cases t <;> first | rfl | cases separates
    rw [parseCommandList, skipWhitespace_cons solid]
    dsimp only [reading_peek_cons]
    rw [if_neg (closing_ne t (.inl separates))]
    cases t <;> first | rfl | cases separates
  rw [next]
  rfl

theorem parseCommandList_opening (bracket : Bracket) :
    parseCommandList (list.map Bracket.closing) (fuel + 1) (reading pos (bracket.opening :: rest) r) =
      let (nested, p) := parseCommandList (some bracket.closing) fuel (reading (pos + bracket.opening.asStr.length) rest r)
      let (commands, p) := parseCommandList (list.map Bracket.closing) fuel p
      (nested ++ commands, p) := by
  have other : list.map Bracket.closing ≠ some bracket.opening := by
    rcases list with _ | ⟨_ | _⟩ <;> cases bracket <;> exact fun same => by cases same
  cases bracket <;> exact if_neg other

theorem advances_opening (bracket : Bracket) :
    Advances ((list, fuel + 1) :: frames) (reading pos (bracket.opening :: rest) r) []
      ((some bracket, fuel) :: (list, fuel) :: frames) (reading (pos + bracket.opening.asStr.length) rest r) := by
  unfold Advances
  simp only [unwind, parseCommandList_opening, nil_append, append_assoc, Option.map_some]

theorem parseCommandList_ends (bracket : Bracket) :
    parseCommandList (some bracket.closing) (fuel + 1) (reading pos (bracket.closing :: rest) r) =
      ([], reading pos (bracket.closing :: rest) r) := by
  cases bracket <;> rw [parseCommandList, skipWhitespace_cons rfl] <;> simp [Bracket.closing]

theorem parseCommandList_closing (other : list ≠ some bracket) :
    parseCommandList (list.map Bracket.closing) (fuel + 1) (reading pos (bracket.closing :: rest) r) =
      parseCommandList (list.map Bracket.closing) fuel (reading (pos + bracket.closing.asStr.length) rest r) := by
  have differs : list.map Bracket.closing ≠ some bracket.closing := by
    rcases list with _ | ⟨_ | _⟩ <;> cases bracket <;> first | exact absurd rfl other | (intro same; cases same)
  cases bracket <;> exact if_neg differs

theorem advances_closing (bracket : Bracket) (fueled : ∀ frame ∈ frames, 1 ≤ frame.2)
    (left : (frames.dropWhile fun frame => frame.1 = some bracket) = (list, fuel + 1) :: frames') :
    Advances frames (reading pos (bracket.closing :: rest) r) [] ((list, fuel) :: frames')
      (reading (pos + bracket.closing.asStr.length) rest r) := by
  induction frames with
  | nil => cases left
  | cons frame frames ih =>
    obtain ⟨outer, n⟩ := frame
    by_cases waits : outer = some bracket
    · subst waits
      rw [dropWhile_cons_of_pos (by simp)] at left
      obtain ⟨n, rfl⟩ : ∃ k, n = k + 1 := ⟨n - 1, by have := fueled _ mem_cons_self; omega⟩
      have later := ih (fun frame inside => fueled frame (mem_cons_of_mem _ inside)) left
      unfold Advances at *
      rw [unwind, Option.map_some, parseCommandList_ends]
      show ([] ++ (unwind frames _).1, (unwind frames _).2) = _
      rw [nil_append]
      exact later
    · rw [dropWhile_cons_of_neg (by simpa using waits)] at left
      cases left
      unfold Advances
      simp only [unwind, parseCommandList_closing waits, nil_append]

theorem parseCommandList_command {t : Token} (solid : t.isWhitespace = false) (direct : t.isRedirect = false)
    (notTerminator : t.isCommandTerminator = false) :
    parseCommandList (list.map Bracket.closing) (fuel + 1) (reading pos (t :: rest) r) =
      let (command, p) := parseCommand fuel (reading pos (t :: rest) r)
      let (commands, p) := parseCommandList (list.map Bracket.closing) fuel p
      (command :: commands, p) := by
  rw [parseCommandList, skipWhitespace_cons solid]
  dsimp only [reading_peek_cons]
  rw [if_neg (closing_ne t (.inr notTerminator))]
  cases t <;> first | rfl | (cases solid; done) | (cases direct; done) | cases notTerminator

theorem Words.tokens_head (words : Words) (grammatical : words.Grammatical) :
    ∃ t tokens, words.tokens = t :: tokens ∧ t.isWhitespace = false ∧ t.isRedirect = false ∧
      t.isCommandTerminator = false := by
  cases words with
  | last word => exact word.tokens_head grammatical
  | cons word blank words =>
    obtain ⟨t, tokens, isTokens, solid⟩ := word.tokens_head grammatical.1
    exact ⟨t, _, by rw [Words.tokens, isTokens, cons_append], solid⟩

theorem advances_command {words : Words} (reads : words.Reads source) (grammatical : words.Grammatical)
    (ends : CommandEnd rest) (at' : At source pos (words.tokens ++ rest))
    (enough : 8 * (words.tokens ++ rest).length + 3 ≤ fuel) :
    ∃ command, Advances ((list, fuel + 1) :: frames) (reading pos (words.tokens ++ rest) r) [command]
        ((list, fuel) :: frames) (reading (pos + width words.tokens) rest r) ∧
      Shown (words :: words.commands) (decomposeAll source [command]) := by
  obtain ⟨command, read, shown⟩ := parseCommand_reads (r := r) reads ends at' enough
  refine ⟨command, ?_, shown⟩
  obtain ⟨n, rfl⟩ : ∃ n, fuel = n + 1 := ⟨fuel - 1, by omega⟩
  have parsed : Advances ((list, n + 1 + 1) :: frames) (reading pos (words.tokens ++ rest) r) [command]
      ((list, n + 1) :: frames) (reading (pos + width words.tokens) rest r).skipWhitespace := by
    obtain ⟨t, tokens, isTokens, solid, direct, notTerminator⟩ := words.tokens_head grammatical
    unfold Advances
    rw [isTokens, cons_append] at read ⊢
    simp only [unwind, parseCommandList_command solid direct notTerminator, read, cons_append, nil_append]
  exact parsed.trans advances_skip

end Frames

section Reads

variable (source)

/-- The parser goes through a script in the lists that it is in, and shows its commands. -/
def Script.Reads (s : Script) : Prop :=
  ∀ (frames : Frames) (lists : List (Option Bracket)) (pos : ℕ) (rest : List Token) (r : Bool), frames ≠ [] →
    s.waiting (frames.map Prod.fst) = some lists → CommandEnd rest → At source pos (s.tokens ++ rest) →
    (∀ frame ∈ frames, 8 * (s.tokens ++ rest).length + 4 ≤ frame.2) →
    ∃ commands frames', frames'.map Prod.fst = lists ∧ frames' ≠ [] ∧ (∀ frame ∈ frames', 8 * rest.length + 4 ≤ frame.2) ∧
      Advances frames (reading pos (s.tokens ++ rest) r) commands frames' (reading (pos + width s.tokens) rest r) ∧
      Shown s.commands (decomposeAll source commands)

variable {source}

theorem Script.Reads.nil : Script.nil.Reads source := by
  intro frames lists pos rest r nonempty waits ends at' fueled
  cases waits
  exact ⟨[], frames, rfl, nonempty, fueled, Advances.refl, Shown.nil⟩

variable {s : Script}

theorem Script.Reads.after_round {t : Token} (reads : s.Reads source) {frames : Frames} {lists : List (Option Bracket)}
    (nonempty : frames ≠ []) (waits : s.waiting (frames.map Prod.fst) = some lists) (ends : CommandEnd rest)
    (at' : At source pos (t :: (s.tokens ++ rest)))
    (fueled : ∀ frame ∈ frames, 8 * (t :: (s.tokens ++ rest)).length + 4 ≤ frame.2)
    (round : ∀ list fuel others, frames = (list, fuel + 1) :: others → ∃ fuel', fuel ≤ fuel' ∧ Advances frames (reading pos (t :: (s.tokens ++ rest)) r) [] ((list, fuel') :: others) (reading (pos + t.asStr.length) (s.tokens ++ rest) r)) :
    ∃ commands frames', frames'.map Prod.fst = lists ∧ frames' ≠ [] ∧ (∀ frame ∈ frames', 8 * rest.length + 4 ≤ frame.2) ∧
      Advances frames (reading pos (t :: (s.tokens ++ rest)) r) commands frames'
        (reading (pos + t.asStr.length + width s.tokens) rest r) ∧
      Shown s.commands (decomposeAll source commands) := by
  match frames, nonempty with
  | (list, 0) :: others, _ => exact absurd (fueled _ mem_cons_self) (by omega)
  | (list, fuel + 1) :: others, _ =>
    obtain ⟨fuel', more, advances⟩ := round list fuel others rfl
    have still : ∀ frame ∈ (list, fuel') :: others, 8 * (s.tokens ++ rest).length + 4 ≤ frame.2 := by
      intro frame inside
      have top := fueled _ mem_cons_self
      rw [length_cons] at top
      rcases List.mem_cons.mp inside with rfl | below
      · dsimp only at top ⊢
        omega
      · have enough := fueled frame (mem_cons_of_mem _ below)
        rw [length_cons] at enough
        omega
    obtain ⟨commands, frames', isLists, remain, enough, later, shown⟩ := reads ((list, fuel') :: others) lists _ rest r
      (cons_ne_nil _ _) waits ends at'.tail still
    exact ⟨commands, frames', isLists, remain, enough, Advances.trans advances later, shown⟩

theorem Script.Reads.blank {text : Str} (reads : s.Reads source) : (Script.blank text s).Reads source := by
  intro frames lists pos rest r nonempty waits ends at' fueled
  rw [Script.tokens, width_cons, ← Nat.add_assoc]
  refine reads.after_round nonempty waits ends at' fueled fun list fuel others isFrames => ⟨fuel + 1, by omega, ?_⟩
  rw [isFrames]
  exact advances_blank text

theorem Script.Reads.separator {t : Token} (separates : t.isValidCommandSeparator) (reads : s.Reads source) :
    (Script.separator t s).Reads source := by
  intro frames lists pos rest r nonempty waits ends at' fueled
  rw [Script.tokens, width_cons, ← Nat.add_assoc]
  refine reads.after_round nonempty waits ends at' fueled fun list fuel others isFrames => ⟨fuel, Nat.le_refl _, ?_⟩
  rw [isFrames]
  exact advances_separator separates

theorem CommandEnd.closing (bracket : Bracket) (rest : List Token) : CommandEnd (bracket.closing :: rest) := by
  cases bracket <;> exact ⟨rfl, Token.noConfusion⟩

theorem Script.commandEnd (ends : CommandEnd rest) : ∀ s : Script, s.EndsCommand → s.Grammatical → CommandEnd (s.tokens ++ rest)
  | .nil, _, _ => ends
  | .blank _ s, endsCommand, grammatical => commandEnd ends s endsCommand grammatical
  | .separator t s, _, grammatical => by
    have separates := grammatical.1
    cases t <;> first | exact ⟨rfl, Token.noConfusion⟩ | cases separates

theorem Script.Reads.command {words : Words} (inner : words.Reads source) (reads : s.Reads source)
    (grammatical : (Script.command words s).Grammatical) : (Script.command words s).Reads source := by
  intro frames lists pos rest r nonempty waits ends at' fueled
  obtain ⟨ofWords, endsCommand, ofRest⟩ := grammatical
  obtain ⟨t, tokens, isTokens, -⟩ := words.tokens_head ofWords
  rw [Script.tokens, append_assoc] at at' fueled ⊢
  have counted : (words.tokens ++ (s.tokens ++ rest)).length = tokens.length + 1 + (s.tokens ++ rest).length := by
    simp only [isTokens, length_append, length_cons]
  match frames, nonempty with
  | (list, 0) :: others, _ => exact absurd (fueled _ mem_cons_self) (by omega)
  | (list, fuel + 1) :: others, _ =>
    have top := fueled _ mem_cons_self
    dsimp only at top
    have enough : 8 * (words.tokens ++ (s.tokens ++ rest)).length + 3 ≤ fuel := by omega
    obtain ⟨command, advances, shown⟩ := @advances_command source pos fuel (s.tokens ++ rest) r others list words inner
      ofWords (s.commandEnd ends endsCommand ofRest) at' enough
    have still : ∀ frame ∈ (list, fuel) :: others, 8 * (s.tokens ++ rest).length + 4 ≤ frame.2 := by
      intro frame inside
      rcases List.mem_cons.mp inside with rfl | below
      · dsimp only
        omega
      · have enough := fueled frame (mem_cons_of_mem _ below)
        omega
    obtain ⟨commands, frames', isLists, remain, enough, later, others'⟩ := reads ((list, fuel) :: others) lists _ rest r
      (cons_ne_nil _ _) waits ends at'.right still
    rw [width_append, ← Nat.add_assoc]
    refine ⟨command :: commands, frames', isLists, remain, enough, advances.trans later, ?_⟩
    rw [← singleton_append, decomposeAll_append]
    exact Shown.append (shown.mono (subset_append_left _ _)) (others'.mono (subset_append_right _ _))

theorem Script.Reads.group {bracket : Bracket} {body : Script} (inner : body.Reads source) (reads : s.Reads source) :
    (Script.group bracket body s).Reads source := by
  intro frames lists pos rest r nonempty waits ends at' fueled
  rw [Script.waiting] at waits
  rw [Script.tokens, cons_append, append_assoc, cons_append] at at' fueled ⊢
  match frames, nonempty with
  | (list, 0) :: others, _ => exact absurd (fueled _ mem_cons_self) (by omega)
  | (list, fuel + 1) :: others, _ =>
    match isMiddle : body.waiting (some bracket :: ((list, fuel + 1) :: others).map Prod.fst) with
    | none =>
      rw [isMiddle] at waits
      cases waits
    | some middle =>
      rw [isMiddle] at waits
      dsimp only at waits
      split_ifs at waits with ended
      have inGroup : ∀ frame ∈ (some bracket, fuel) :: (list, fuel) :: others,
          8 * (body.tokens ++ bracket.closing :: (s.tokens ++ rest)).length + 4 ≤ frame.2 := by
        intro frame inside
        have top := fueled _ mem_cons_self
        rw [length_cons] at top
        dsimp only at top
        rcases List.mem_cons.mp inside with rfl | inside
        · dsimp only
          omega
        · rcases List.mem_cons.mp inside with rfl | below
          · dsimp only
            omega
          · have enough := fueled frame (mem_cons_of_mem _ below)
            rw [length_cons] at enough
            omega
      obtain ⟨commands, frames', isLists, -, enough, within, shown⟩ := inner ((some bracket, fuel) :: (list, fuel) :: others)
        middle _ (bracket.closing :: (s.tokens ++ rest)) r (cons_ne_nil _ _) isMiddle (CommandEnd.closing bracket _)
        at'.tail inGroup
      have isLeft : (frames'.dropWhile fun frame => frame.1 = some bracket).map Prod.fst =
          middle.dropWhile fun list => list = some bracket := by
        rw [← isLists, dropWhile_map]
        rfl
      match left : frames'.dropWhile fun frame => frame.1 = some bracket with
      | [] =>
        rw [left] at isLeft
        exact absurd isLeft.symm ended
      | (outer, n) :: below =>
        have kept : ∀ frame ∈ (outer, n) :: below, 8 * (bracket.closing :: (s.tokens ++ rest)).length + 4 ≤ frame.2 :=
          fun frame inside => enough frame ((dropWhile_sublist _).subset (left ▸ inside))
        obtain ⟨n, rfl⟩ : ∃ k, n = k + 1 := ⟨n - 1, by have := kept _ mem_cons_self; dsimp only at this; omega⟩
        have fueled' : ∀ frame ∈ frames', 1 ≤ frame.2 := fun frame inside => by have := enough frame inside; omega
        have closes := @advances_closing (pos + bracket.opening.asStr.length + width body.tokens) n (s.tokens ++ rest) r
          frames' below outer bracket fueled' left
        have still : ∀ frame ∈ (outer, n) :: below, 8 * (s.tokens ++ rest).length + 4 ≤ frame.2 := by
          intro frame inside
          rcases List.mem_cons.mp inside with rfl | deeper
          · have top := kept _ mem_cons_self
            rw [length_cons] at top
            dsimp only at top ⊢
            omega
          · have more := kept frame (mem_cons_of_mem _ deeper)
            rw [length_cons] at more
            omega
        have waits' : s.waiting (((outer, n) :: below).map Prod.fst) = some lists := by
          rw [← waits, ← isLeft, left]
          rfl
        obtain ⟨more, frames'', isLists', remain, enough', later, shown'⟩ := reads ((outer, n) :: below) lists _ rest r
          (cons_ne_nil _ _) waits' ends at'.tail.right.tail still
        have stop : pos + width (bracket.opening :: (body.tokens ++ bracket.closing :: s.tokens)) =
            pos + bracket.opening.asStr.length + width body.tokens + bracket.closing.asStr.length + width s.tokens := by
          simp only [width_cons, width_append]
          omega
        rw [stop]
        refine ⟨commands ++ more, frames'', isLists', remain, enough',
          (advances_opening bracket).trans (within.trans (closes.trans later)), ?_⟩
        rw [decomposeAll_append]
        exact Shown.append (shown.mono (subset_append_left _ _)) (shown'.mono (subset_append_right _ _))

end Reads

end Warp.Completer
