import Warp.Completer.WordRun

namespace Warp.Completer

open Parser List

variable {source : Str} {start pos fuel : ℕ} {rest : List Token} {r : Bool}

def CommandEnd : List Token → Prop
  | [] => True
  | t :: rest => if t.isWhitespace then CommandEnd rest else t.isCommandTerminator ∧ t ≠ .openParen

theorem WordEnd.blank (blank : Str) : WordEnd (.whitespace blank :: rest) := Or.inl rfl

theorem CommandEnd.wordEnd (ends : CommandEnd rest) : WordEnd rest := by
  cases rest with
  | nil => trivial
  | cons t rest =>
    unfold CommandEnd at ends
    split_ifs at ends with blank
    · exact .inl blank
    · exact .inr ends

theorem parseParts_skip (parts : List (Spanned Part)) (p : Parser) :
    parseParts parts (fuel + 1) p.skipWhitespace = parseParts parts (fuel + 1) p := by
  rw [parseParts, parseParts, skipWhitespace_idem]

theorem parseParts_blank (parts : List (Spanned Part)) (blank : Str) :
    parseParts parts (fuel + 1) (reading pos (.whitespace blank :: rest) r) =
      parseParts parts (fuel + 1) (reading (pos + blank.length) rest r) := by
  rw [← parseParts_skip, skipWhitespace_blank, parseParts_skip]

theorem parseParts_ends (parts : List (Spanned Part)) (ends : CommandEnd rest) :
    parseParts parts (fuel + 1) (reading pos rest r) = (parts, (reading pos rest r).skipWhitespace) := by
  induction rest generalizing pos with
  | nil =>
    rw [parseParts]
    rfl
  | cons t rest ih =>
    unfold CommandEnd at ends
    split_ifs at ends with blank
    · cases t with
      | whitespace blank => rw [parseParts_blank, skipWhitespace_blank, ih ends]
      | _ => cases blank
    · have direct : ¬ t.isRedirect := by
        have terminator := ends.1
        cases t <;> first | exact Bool.false_ne_true | cases terminator
      rw [parseParts, skipWhitespace_cons (by simpa using blank)]
      simp only [reading_peek_cons]
      rw [if_neg direct, if_pos ends.1]

section Words

variable (source)

structure Words.ShownBy (words : Words) (parts : List (Spanned Part)) (start stop : ℕ) : Prop where
  nested : Shown words.commands (nestedTexts source parts)
  first : words.first.shape ≠ .bare → ∃ part, parts.head? = some part ∧ part.span.start = start
  final : words.final.shape ≠ .bare → ∃ part, parts.getLast? = some part ∧ part.span.stop = stop
  literal : (∃ word ∈ words.words, word.IsOneLiteral) → parts.any fun part => part.item.isLiteral

/-- The parser reads the words of a command, and the blanks behind them. -/
def Words.Reads (words : Words) : Prop :=
  ∀ (parts : List (Spanned Part)) (pos : ℕ) (rest : List Token) (r : Bool) (fuel : ℕ), CommandEnd rest →
    At source pos (words.tokens ++ rest) → 8 * (words.tokens ++ rest).length + 2 ≤ fuel →
    ∃ new, parseParts parts fuel (reading pos (words.tokens ++ rest) r) =
        (parts ++ new, (reading (pos + width words.tokens) rest r).skipWhitespace) ∧
      words.ShownBy source new pos (pos + width words.tokens)

variable {source}

theorem Spanned.Fits.span_eq {part : Spanned Part} {stop : ℕ} {kind : Shape} (fits : part.Fits start stop kind)
    (whole : kind ≠ .bare) : part.span = ⟨start, stop⟩ := by
  cases kind with
  | empty | opened | run => exact fits.elim
  | quoted | substitution =>
    obtain ⟨_, rfl⟩ := fits
    rfl
  | bare => exact absurd rfl whole
  | mixed =>
    obtain ⟨_, rfl, -⟩ := fits
    rfl

theorem Shape.close_bare {shape : Shape} : shape.close = .bare ↔ shape = .bare := by cases shape <;> decide

theorem parseParts_word {word : Word} (reads : word.Reads source) (grammatical : word.Grammatical)
    (parts : List (Spanned Part)) (ends : WordEnd rest) (at' : At source pos (word.tokens ++ rest))
    (enough : 8 * (word.tokens ++ rest).length + 1 ≤ fuel) :
    ∃ part, parseParts parts (fuel + 1) (reading pos (word.tokens ++ rest) r) =
        parseParts (parts ++ [part]) fuel (reading (pos + width word.tokens) rest r) ∧
      Shown word.commands (nestedTexts source [part]) ∧ (word.shape ≠ .bare → part.span = ⟨pos, pos + width word.tokens⟩) ∧
      (word.IsOneLiteral → part.item.isLiteral) := by
  obtain ⟨after, read, held, -, shown⟩ := reads parts.isEmpty (.new pos) pos pos .empty rest r fuel
    (PartBuilder.new_holds pos) (by decide) ends at' enough
  have fits : (after.complete (pos + width word.tokens)).Fits pos (pos + width word.tokens) word.shape.close :=
    PartBuilder.complete_fits held fun _ => rfl
  refine ⟨_, ?_, (shown.mono (complete_texts held (pos + width word.tokens))).mono ?_,
    fun whole => fits.span_eq fun bare => whole (Shape.close_bare.mp bare), fun one => ?_⟩
  · obtain ⟨t, tokens, isTokens, solid, direct, notTerminator⟩ := word.tokens_head grammatical
    rw [isTokens, cons_append] at read ⊢
    rw [parseParts, skipWhitespace_cons solid]
    simp only [reading_peek_cons, direct, notTerminator, reading_pos, Bool.false_eq_true, if_false, read]
  · rw [nestedTexts_singleton]
    exact flat_texts _
  · have quoted : word.shape.close = .quoted := by
      rcases one with run | quoted
      · rw [run]
        rfl
      · rw [quoted]
        rfl
    rw [quoted] at fits
    obtain ⟨value, isPart⟩ := fits
    rw [isPart]
    rfl

theorem Words.Reads.last {word : Word} (reads : word.Reads source) (grammatical : word.Grammatical) :
    (Words.last word).Reads source := by
  intro parts pos rest r fuel ends at' enough
  obtain ⟨fuel, rfl⟩ : ∃ n, fuel = n + 2 := ⟨fuel - 2, by omega⟩
  rw [Words.tokens] at at' enough ⊢
  have enough' : 8 * (word.tokens ++ rest).length + 1 ≤ fuel + 1 := by omega
  obtain ⟨part, read, shown, spans, literal⟩ := parseParts_word (r := r) reads grammatical parts ends.wordEnd at' enough'
  rw [parseParts_ends _ ends] at read
  refine ⟨[part], read, shown, fun whole => ⟨part, rfl, ?_⟩, fun whole => ⟨part, rfl, ?_⟩, ?_⟩
  · rw [spans whole]
  · rw [spans whole]
  · rintro ⟨other, isWord, one⟩
    rw [Words.words, mem_singleton] at isWord
    simpa using literal (isWord ▸ one)

theorem Words.Reads.cons {word : Word} {blank : Str} {words : Words} (reads : word.Reads source)
    (others : words.Reads source) (grammatical : word.Grammatical) : (Words.cons word blank words).Reads source := by
  intro parts pos rest r fuel ends at' enough
  rw [Words.tokens, append_assoc, cons_append] at at' enough ⊢
  obtain ⟨fuel, rfl⟩ : ∃ n, fuel = n + 2 := ⟨fuel - 2, by omega⟩
  have enough' : 8 * (word.tokens ++ .whitespace blank :: (words.tokens ++ rest)).length + 1 ≤ fuel + 1 := by omega
  obtain ⟨part, read, shown, spans, literal⟩ := parseParts_word (r := r) reads grammatical parts (WordEnd.blank _) at'
    enough'
  obtain ⟨t, tokens, isTokens, -⟩ := word.tokens_head grammatical
  obtain ⟨new, readRest, isShown⟩ := others (parts ++ [part]) (pos + width word.tokens + blank.length) rest r (fuel + 1) ends
    at'.right.tail (by simp only [isTokens, length_append, length_cons] at enough ⊢; omega)
  have stop : pos + width (word.tokens ++ .whitespace blank :: words.tokens) =
      pos + width word.tokens + blank.length + width words.tokens := by
    simp [Token.asStr]
    omega
  rw [stop, read, parseParts_blank, readRest, append_assoc]
  refine ⟨part :: new, rfl, ?_, fun whole => ⟨part, rfl, by rw [spans whole]⟩, fun whole => ?_, ?_⟩
  · rw [← singleton_append, nestedTexts_append]
    exact Shown.append (shown.mono (subset_append_left _ _)) (isShown.nested.mono (subset_append_right _ _))
  · obtain ⟨last, isLast, stops⟩ := isShown.final whole
    refine ⟨last, ?_, stops⟩
    rw [← singleton_append, List.getLast?_append, isLast]
    rfl
  · rintro ⟨other, isWord, one⟩
    rw [any_cons, Bool.or_eq_true]
    rcases List.mem_cons.mp isWord with rfl | later
    · exact .inl (literal one)
    · exact .inr (isShown.literal ⟨other, later, one⟩)

theorem parseCommand_reads {words : Words} (reads : words.Reads source) (ends : CommandEnd rest)
    (at' : At source pos (words.tokens ++ rest)) (enough : 8 * (words.tokens ++ rest).length + 3 ≤ fuel) :
    ∃ command, parseCommand fuel (reading pos (words.tokens ++ rest) r) =
        (command, (reading (pos + width words.tokens) rest r).skipWhitespace) ∧
      Shown (words :: words.commands) (decomposeAll source [command]) := by
  obtain ⟨fuel, rfl⟩ : ∃ n, fuel = n + 1 := ⟨fuel - 1, by omega⟩
  obtain ⟨parts, read, shown⟩ := reads [] pos rest r fuel ends at' (by omega)
  rw [parseCommand, read, nil_append]
  refine ⟨_, rfl, ?_⟩
  rw [decomposeAll, decomposeAll, Command.decompose, append_nil]
  intro other member exposed
  rcases List.mem_cons.mp member with rfl | nested
  · obtain ⟨first, isFirst, starts⟩ := shown.first exposed.first
    obtain ⟨final, isFinal, stops⟩ := shown.final exposed.final
    apply mem_append_right
    rw [ownText, if_pos (shown.literal exposed.literal), totalText, isFirst, isFinal]
    dsimp only
    rw [textFrom, starts, stops, At.slice at'.left]
    exact List.mem_singleton.mpr rfl
  · exact mem_append_left _ (shown.nested other nested exposed)

end Words

end Warp.Completer
