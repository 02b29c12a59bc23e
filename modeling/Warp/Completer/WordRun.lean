import Warp.Completer.PartShape

namespace Warp.Completer

open Parser List

variable {source : Str} {start pos fuel : ℕ} {rest : List Token} {r first : Bool} {b : PartBuilder} {shape : Shape}

section Shown

variable {commands more : List Words} {texts : List Str}

def Shown (commands : List Words) (texts : List Str) : Prop :=
  ∀ words ∈ commands, words.Exposed → Str.trim words.text ∈ texts

theorem Shown.nil : Shown [] texts := fun _ inside => absurd inside not_mem_nil

theorem Shown.mono {longer : List Str} (shown : Shown commands texts) (included : texts ⊆ longer) : Shown commands longer :=
  fun words inside exposed => included (shown words inside exposed)

theorem Shown.append (shown : Shown commands texts) (others : Shown more texts) : Shown (commands ++ more) texts := by
  intro words inside
  rcases List.mem_append.mp inside with left | right
  · exact shown words left
  · exact others words right

end Shown

def WordEnd : List Token → Prop
  | [] => True
  | t :: _ => t.isWhitespace ∨ (t.isCommandTerminator ∧ t ≠ .openParen)

theorem WordEnd.notOpen (ends : WordEnd rest) : rest.head? ≠ some .openParen := by
  intro opens
  cases rest with
  | nil => cases opens
  | cons t rest =>
    cases opens
    rcases ends with blank | ⟨-, other⟩
    · cases blank
    · exact other rfl

theorem parsePart_ends (ends : WordEnd rest) :
    parsePart first b (fuel + 1) (reading pos rest r) = (b.complete pos, reading pos rest r) := by
  rw [parsePart]
  cases rest with
  | nil => rfl
  | cons t rest =>
    simp only [reading_peek_cons, reading_pos]
    rcases ends with blank | ⟨terminator, -⟩
    · rw [if_pos blank]
    · have solid : ¬ t.isWhitespace := by cases t <;> first | exact Bool.false_ne_true | cases terminator
      have direct : ¬ t.isRedirect := by cases t <;> first | exact Bool.false_ne_true | cases terminator
      rw [if_neg solid, if_neg direct, if_pos terminator]

theorem parsePart_literal (value : Str) : parsePart first b (fuel + 1) (reading pos (.literal value :: rest) r) =
    parsePart first (b.addRaw value) fuel (reading (pos + value.length) rest r) := rfl

theorem parsePart_dollar (notOpen : rest.head? ≠ some .openParen) :
    parsePart first b (fuel + 1) (reading pos (.dollar :: rest) r) =
      parsePart first (b.addRaw Token.dollar.asStr) fuel (reading (pos + 1) rest r) := by
  rw [parsePart]
  simp [Token.isWhitespace, Token.isRedirect, Token.isCommandTerminator, Token.isValidCommandSeparator, notOpen,
    Token.asStr]

theorem parsePart_escaped (c : Str) (t : Token) :
    parsePart first b (fuel + 1) (reading pos (.escapeChar c :: t :: rest) r) =
      parsePart first (b.addRaw (escapedRaw (first && b.isEmpty) c (some t))) fuel
        (reading (pos + c.length + t.asStr.length) rest r) := rfl

theorem escapedRaw_ne_nil (c : Str) {t : Token} (notFeed : t ≠ .newline) (nonempty : t.asStr ≠ []) :
    escapedRaw first c (some t) ≠ [] := by
  have kept : escapedRaw first c (some t) =
      if t = .literal ['~'] then c ++ ['~'] else if first then c ++ t.asStr else t.asStr := by
    cases t <;> first | rfl | exact absurd rfl notFeed
  rw [kept]
  by_cases tilde : t = .literal ['~']
  · rw [if_pos tilde]
    exact append_ne_nil_of_right_ne_nil _ (cons_ne_nil _ _)
  · rw [if_neg tilde]
    cases first with
    | true => exact append_ne_nil_of_right_ne_nil _ nonempty
    | false => exact nonempty

theorem quotedEscapedRaw_ne_nil (c : Str) {t : Token} (notFeed : t ≠ .newline) (nonempty : t.asStr ≠ []) :
    quotedEscapedRaw c (some t) ≠ [] := by
  cases t with
  | newline => exact absurd rfl notFeed
  | dollar | backtick | doubleQuote => exact cons_ne_nil _ _
  | escapeChar value => exact nonempty
  | _ => exact append_ne_nil_of_right_ne_nil _ nonempty

theorem singleQuoted_reading {tokens : List Token} (plain : Token.singleQuote ∉ tokens) (buffer : Str)
    (enough : tokens.length < fuel) :
    singleQuoted buffer fuel (reading pos (tokens ++ .singleQuote :: rest) r) =
      (buffer ++ Token.text tokens, reading (pos + width tokens + 1) rest r) := by
  induction tokens generalizing buffer pos fuel with
  | nil =>
    obtain ⟨fuel, rfl⟩ : ∃ n, fuel = n + 1 := ⟨fuel - 1, by simp at enough; omega⟩
    simp [singleQuoted, Token.asStr]
  | cons t tokens ih =>
    obtain ⟨fuel, rfl⟩ : ∃ n, fuel = n + 1 := ⟨fuel - 1, by simp at enough; omega⟩
    have other : t ≠ .singleQuote := fun same => plain (same ▸ mem_cons_self)
    have step : singleQuoted buffer (fuel + 1) (reading pos (t :: (tokens ++ .singleQuote :: rest)) r) =
        singleQuoted (buffer ++ t.asStr) fuel (reading (pos + t.asStr.length) (tokens ++ .singleQuote :: rest) r) := by
      rw [singleQuoted]
      cases t <;> first | rfl | exact absurd rfl other
    rw [cons_append, step, ih (fun inside => plain (mem_cons_of_mem _ inside)) _
      (Nat.lt_of_succ_lt_succ enough), Token.text_cons, append_assoc, width_cons, Nat.add_assoc pos]

theorem spanTokens_length (tokens : List Token) (pos : ℕ) : (spanTokens pos tokens).length = tokens.length := by
  induction tokens generalizing pos with
  | nil => rfl
  | cons t tokens ih => rw [spanTokens, length_cons, length_cons, ih]

theorem parseSingleQuotedPart_reading {tokens : List Token} (plain : Token.singleQuote ∉ tokens) :
    parseSingleQuotedPart (reading pos (.singleQuote :: (tokens ++ .singleQuote :: rest)) r) =
      (⟨.literal (Token.text tokens), ⟨pos, pos + 1 + width tokens + 1⟩⟩, reading (pos + 1 + width tokens + 1) rest r) := by
  unfold parseSingleQuotedPart
  have enough : tokens.length < (reading (pos + 1) (tokens ++ .singleQuote :: rest) r).tokens.tokens.length := by
    simp only [reading, spanTokens_length, length_append, length_cons]
    omega
  have read := @singleQuoted_reading (pos + 1) _ rest r tokens plain [] enough
  rw [nil_append] at read
  rw [reading_next]
  simp only [Token.asStr, length_singleton, read]
  rfl

section Reads

variable (source)

def Substitution.parse : Substitution → ℕ → Parser → Spanned Part × Parser
  | .dollar _ => parseDollarSubshell
  | .backticks _ => parseBacktickedSubshell

def Substitution.Reads (s : Substitution) : Prop :=
  ∀ (pos : ℕ) (rest : List Token) (r : Bool) (fuel : ℕ), At source pos (s.tokens ++ rest) →
    8 * (s.tokens ++ rest).length ≤ fuel →
    ∃ commands, s.parse fuel (reading pos (s.tokens ++ rest) r) =
        (⟨.closedSubshell commands, ⟨pos, pos + width s.tokens⟩⟩, reading (pos + width s.tokens) rest r) ∧
      Shown s.commands (decomposeAll source commands)

def Quoted.Reads (q : Quoted) : Prop :=
  ∀ (b : PartBuilder) (start pos : ℕ) (shape : Shape) (rest : List Token) (r : Bool) (fuel : ℕ),
    b.Holds start pos shape → shape ≠ .quoted ∧ shape ≠ .substitution → At source pos (q.tokens ++ rest) →
    8 * (q.tokens ++ rest).length + 1 ≤ fuel →
    ∃ part, parseDoubleQuotedPart b fuel (reading pos (q.tokens ++ rest) r) =
        (part, reading (pos + width q.tokens) rest r) ∧
      part.Fits start (pos + width q.tokens) (q.shape shape) ∧
      nestedTexts source b.subParts ⊆ nestedTexts source part.flat ∧ Shown q.commands (nestedTexts source part.flat)

def Piece.Reads (piece : Piece) : Prop :=
  ∀ (first : Bool) (b : PartBuilder) (start pos : ℕ) (shape : Shape) (rest : List Token) (r : Bool) (fuel : ℕ),
    b.Holds start pos shape → shape ≠ .opened → rest.head? ≠ some .openParen → At source pos (piece.tokens ++ rest) →
    8 * (piece.tokens ++ rest).length ≤ fuel →
    ∃ after : PartBuilder, parsePart first b (fuel + 1) (reading pos (piece.tokens ++ rest) r) =
        parsePart first after fuel (reading (pos + width piece.tokens) rest r) ∧
      after.Holds start (pos + width piece.tokens) (piece.shape shape) ∧ piece.shape shape ≠ .opened ∧
      nestedTexts source b.subParts ⊆ nestedTexts source after.subParts ∧
      Shown piece.commands (nestedTexts source after.subParts)

def Word.Reads (word : Word) : Prop :=
  ∀ (first : Bool) (b : PartBuilder) (start pos : ℕ) (shape : Shape) (rest : List Token) (r : Bool) (fuel : ℕ),
    b.Holds start pos shape → shape ≠ .opened → WordEnd rest → At source pos (word.tokens ++ rest) →
    8 * (word.tokens ++ rest).length + 1 ≤ fuel →
    ∃ after : PartBuilder, parsePart first b fuel (reading pos (word.tokens ++ rest) r) =
        (after.complete (pos + width word.tokens), reading (pos + width word.tokens) rest r) ∧
      after.Holds start (pos + width word.tokens) (word.shapeAfter shape) ∧
      nestedTexts source b.subParts ⊆ nestedTexts source after.subParts ∧
      Shown word.commands (nestedTexts source after.subParts)

end Reads

section Shapes

variable {kind : Shape}

theorem Shape.addRaw_ne_opened (shape : Shape) : shape.addRaw ≠ .opened := by cases shape <;> exact Shape.noConfusion

theorem Shape.addPart_ne_opened (shape : Shape) (closed : kind ≠ .opened) : shape.addPart kind ≠ .opened := by
  cases shape <;> first | exact closed | exact Shape.noConfusion

theorem Spanned.Fits.ne_opened {part : Spanned Part} {stop : ℕ} (fits : part.Fits start stop kind) : kind ≠ .opened := by
  rintro rfl
  exact fits

end Shapes

theorem Piece.Reads.raw {t : Token} (grammatical : (Piece.raw t).Grammatical) : (Piece.raw t).Reads source := by
  intro first b start pos shape rest r fuel holds outside notOpen at' enough
  rw [Piece.tokens, singleton_append, width_cons, width_nil, Nat.add_zero]
  rcases grammatical with ⟨value, nonempty, rfl⟩ | rfl
  · exact ⟨_, parsePart_literal value, PartBuilder.addRaw_holds holds nonempty, shape.addRaw_ne_opened,
      List.Subset.refl _, Shown.nil⟩
  · exact ⟨_, parsePart_dollar notOpen, PartBuilder.addRaw_holds holds (cons_ne_nil _ _), shape.addRaw_ne_opened,
      List.Subset.refl _, Shown.nil⟩

theorem Piece.Reads.escaped {c : Str} {t : Token} (grammatical : (Piece.escaped c t).Grammatical) :
    (Piece.escaped c t).Reads source := by
  intro first b start pos shape rest r fuel holds outside notOpen at' enough
  have nonempty : escapedRaw (first && b.isEmpty) c (some t) ≠ [] := escapedRaw_ne_nil c grammatical.1 grammatical.2
  refine ⟨_, ?_, PartBuilder.addRaw_holds holds nonempty, shape.addRaw_ne_opened, List.Subset.refl _, Shown.nil⟩
  rw [Piece.tokens, width_cons, width_cons, width_nil, Nat.add_zero, ← Nat.add_assoc]
  exact parsePart_escaped c t

theorem addPart_reads {part : Spanned Part} {kind : Shape} {stop : ℕ} {commands : List Words}
    (holds : b.Holds start pos shape) (outside : shape ≠ .opened) (fits : part.Fits pos stop kind)
    (shown : Shown commands (nestedTexts source part.flat)) :
    (b.addPart part).Holds start stop (shape.addPart kind) ∧ shape.addPart kind ≠ .opened ∧
      nestedTexts source b.subParts ⊆ nestedTexts source (b.addPart part).subParts ∧
      Shown commands (nestedTexts source (b.addPart part).subParts) := by
  rw [addPart_texts]
  exact ⟨PartBuilder.addPart_holds holds fits fun inside => absurd inside outside,
    Shape.addPart_ne_opened shape (Spanned.Fits.ne_opened fits),
    subset_append_left _ _, shown.mono (subset_append_right _ _)⟩

theorem Piece.Reads.single {tokens : List Token} (grammatical : (Piece.single tokens).Grammatical) :
    (Piece.single tokens).Reads source := by
  intro first b start pos shape rest r fuel holds outside notOpen at' enough
  have read := @parseSingleQuotedPart_reading pos rest r tokens grammatical
  have stop : pos + width (Piece.single tokens).tokens = pos + 1 + width tokens + 1 := by
    simp [Piece.tokens, Token.asStr]
    omega
  rw [stop]
  refine ⟨_, ?_, addPart_reads holds outside ⟨Token.text tokens, rfl⟩ Shown.nil⟩
  rw [Piece.tokens, cons_append, append_assoc, singleton_append, parsePart]
  simp [Token.isWhitespace, Token.isRedirect, Token.isCommandTerminator, Token.isValidCommandSeparator, read]

theorem Piece.Reads.double {q : Quoted} (reads : q.Reads source) : (Piece.double q).Reads source := by
  intro first b start pos shape rest r fuel holds outside notOpen at' enough
  rw [Piece.tokens, cons_append] at at' enough ⊢
  obtain ⟨part, parsed, fits, -, shown⟩ := reads (.new pos) pos (pos + 1) .opened rest r fuel rfl ⟨by decide, by decide⟩
    at'.tail (by simp only [length_cons] at enough; omega)
  have stop : pos + width (.doubleQuote :: q.tokens) = pos + 1 + width q.tokens := by
    simp [Token.asStr]
    omega
  rw [stop]
  refine ⟨_, ?_, addPart_reads holds outside fits shown⟩
  rw [parsePart]
  simp [Token.isWhitespace, Token.isRedirect, Token.isCommandTerminator, Token.isValidCommandSeparator, Token.asStr,
    parsed]

theorem decomposeAll_texts (commands : List (Spanned Command)) (span : Span) :
    decomposeAll source commands ⊆ nestedTexts source (Spanned.flat ⟨.closedSubshell commands, span⟩) := by
  show _ ⊆ nestedTexts source [⟨.closedSubshell commands, span⟩]
  rw [nestedTexts_singleton, Part.texts]
  exact subset_append_right _ _

theorem parsePart_substitution (s : Substitution) :
    parsePart first b (fuel + 1) (reading pos (s.tokens ++ rest) r) =
      parsePart first (b.addPart (s.parse fuel (reading pos (s.tokens ++ rest) r)).1) fuel
        (s.parse fuel (reading pos (s.tokens ++ rest) r)).2 := by
  cases s <;> rfl

theorem Piece.Reads.substitution {s : Substitution} (reads : s.Reads source) : (Piece.substitution s).Reads source := by
  intro first b start pos shape rest r fuel holds outside notOpen at' enough
  obtain ⟨commands, parsed, shown⟩ := reads pos rest r fuel at' enough
  refine ⟨_, ?_, addPart_reads holds outside ⟨commands, rfl⟩ (shown.mono (decomposeAll_texts commands _))⟩
  rw [Piece.tokens, parsePart_substitution, parsed]

section Quotations

variable {t : Token} {q : Quoted}

theorem parseDoubleQuotedPart_raw (notQuote : t ≠ .doubleQuote) (notBacktick : t ≠ .backtick)
    (notEscape : ∀ c, t ≠ .escapeChar c) (notOpen : t = .dollar → rest.head? ≠ some .openParen) :
    parseDoubleQuotedPart b (fuel + 1) (reading pos (t :: rest) r) =
      parseDoubleQuotedPart (b.addRaw t.asStr) fuel (reading (pos + t.asStr.length) rest r) := by
  rw [parseDoubleQuotedPart]
  cases t with
  | doubleQuote => exact absurd rfl notQuote
  | backtick => exact absurd rfl notBacktick
  | escapeChar c => exact absurd rfl (notEscape c)
  | dollar => simp [notOpen rfl]
  | _ => rfl

theorem parseDoubleQuotedPart_escaped (c : Str) (t : Token) :
    parseDoubleQuotedPart b (fuel + 1) (reading pos (.escapeChar c :: t :: rest) r) =
      parseDoubleQuotedPart (b.addRaw (quotedEscapedRaw c (some t))) fuel
        (reading (pos + c.length + t.asStr.length) rest r) := rfl

theorem parseDoubleQuotedPart_substitution (s : Substitution) :
    parseDoubleQuotedPart b (fuel + 1) (reading pos (s.tokens ++ rest) r) =
      parseDoubleQuotedPart (b.addPart (s.parse fuel (reading pos (s.tokens ++ rest) r)).1) fuel
        (s.parse fuel (reading pos (s.tokens ++ rest) r)).2 := by
  cases s <;> rfl

theorem Shape.addRaw_inQuotes (shape : Shape) : shape.addRaw ≠ .quoted ∧ shape.addRaw ≠ .substitution := by
  cases shape <;> exact ⟨Shape.noConfusion, Shape.noConfusion⟩

theorem Quoted.tokens_ne_nil (q : Quoted) : q.tokens ≠ [] := by
  cases q with
  | substitution s rest => cases s <;> exact cons_ne_nil _ _
  | _ => exact cons_ne_nil _ _

theorem Quoted.Reads.nil : Quoted.nil.Reads source := by
  intro b start pos shape rest r fuel holds inQuotes at' enough
  obtain ⟨fuel, rfl⟩ : ∃ n, fuel = n + 1 := ⟨fuel - 1, by omega⟩
  exact ⟨b.complete (pos + 1), rfl,
    PartBuilder.complete_fits holds fun alone => alone.elim (absurd · inQuotes.1) (absurd · inQuotes.2),
    complete_texts holds _, Shown.nil⟩

theorem Quoted.Reads.raw (notQuote : t ≠ .doubleQuote) (notBacktick : t ≠ .backtick)
    (notEscape : ∀ c, t ≠ .escapeChar c) (nonempty : t.asStr ≠ [])
    (notOpen : t = .dollar → q.tokens.head? ≠ some .openParen) (reads : q.Reads source) :
    (Quoted.raw t q).Reads source := by
  intro b start pos shape rest r fuel holds inQuotes at' enough
  obtain ⟨fuel, rfl⟩ : ∃ n, fuel = n + 1 := ⟨fuel - 1, by omega⟩
  rw [Quoted.tokens, cons_append] at at' enough ⊢
  rw [width_cons, ← Nat.add_assoc]
  have notOpen' : t = .dollar → (q.tokens ++ rest).head? ≠ some .openParen := by
    rw [List.head?_append_of_ne_nil _ q.tokens_ne_nil]
    exact notOpen
  rw [parseDoubleQuotedPart_raw notQuote notBacktick notEscape notOpen']
  exact reads _ _ _ _ _ _ _ (PartBuilder.addRaw_holds holds nonempty) shape.addRaw_inQuotes at'.tail
    (by simp only [length_cons] at enough; omega)

theorem Quoted.Reads.escaped {c : Str} (notFeed : t ≠ .newline) (nonempty : t.asStr ≠ []) (reads : q.Reads source) :
    (Quoted.escaped c t q).Reads source := by
  intro b start pos shape rest r fuel holds inQuotes at' enough
  obtain ⟨fuel, rfl⟩ : ∃ n, fuel = n + 1 := ⟨fuel - 1, by omega⟩
  rw [Quoted.tokens, cons_append, cons_append] at at' enough ⊢
  rw [width_cons, width_cons, ← Nat.add_assoc, ← Nat.add_assoc, parseDoubleQuotedPart_escaped]
  exact reads _ _ _ _ _ _ _ (PartBuilder.addRaw_holds holds (quotedEscapedRaw_ne_nil c notFeed nonempty))
    shape.addRaw_inQuotes at'.tail.tail (by simp only [length_cons] at enough; omega)

theorem Quoted.Reads.substitution {s : Substitution} (inner : s.Reads source) (reads : q.Reads source) :
    (Quoted.substitution s q).Reads source := by
  intro b start pos shape rest r fuel holds inQuotes at' enough
  obtain ⟨fuel, rfl⟩ : ∃ n, fuel = n + 1 := ⟨fuel - 1, by omega⟩
  rw [Quoted.tokens, append_assoc] at at' enough ⊢
  obtain ⟨commands, parsed, shown⟩ := inner pos (q.tokens ++ rest) r fuel at' (by omega)
  have taken : 1 ≤ s.tokens.length := by cases s <;> exact Nat.succ_le_succ (Nat.zero_le _)
  let part : Spanned Part := ⟨.closedSubshell commands, ⟨pos, pos + width s.tokens⟩⟩
  have isPart : part.Fits pos (pos + width s.tokens) .bare := ⟨commands, rfl⟩
  have still : shape.addPart .bare ≠ .quoted ∧ shape.addPart .bare ≠ .substitution := by
    cases shape <;> exact ⟨Shape.noConfusion, Shape.noConfusion⟩
  obtain ⟨whole, read, fits, kept, others⟩ := reads (b.addPart part) start (pos + width s.tokens) (shape.addPart .bare) rest
    r fuel (PartBuilder.addPart_holds holds isPart fun _ => rfl) still at'.right
    (by rw [length_append] at enough; omega)
  rw [addPart_texts] at kept
  rw [width_append, ← Nat.add_assoc, parseDoubleQuotedPart_substitution, parsed]
  refine ⟨whole, read, fits, fun text inside => kept (mem_append_left _ inside), ?_⟩
  refine Shown.append (shown.mono fun text inside => kept (mem_append_right _ ?_)) others
  exact decomposeAll_texts commands _ inside

end Quotations

theorem Piece.tokens_head (piece : Piece) (grammatical : piece.Grammatical) :
    ∃ t tokens, piece.tokens = t :: tokens ∧ t.isWhitespace = false ∧ t.isRedirect = false ∧
      t.isCommandTerminator = false := by
  cases piece with
  | raw t =>
    rcases grammatical with ⟨value, -, rfl⟩ | rfl <;> exact ⟨_, _, rfl, rfl, rfl, rfl⟩
  | substitution s => cases s <;> exact ⟨_, _, rfl, rfl, rfl, rfl⟩
  | _ => exact ⟨_, _, rfl, rfl, rfl, rfl⟩

theorem Word.Reads.last {piece : Piece} (reads : piece.Reads source) (grammatical : piece.Grammatical) :
    (Word.last piece).Reads source := by
  intro first b start pos shape rest r fuel holds outside ends at' enough
  obtain ⟨t, tokens, isTokens, -, -, -⟩ := piece.tokens_head grammatical
  rw [Word.tokens] at at' enough ⊢
  obtain ⟨fuel, rfl⟩ : ∃ n, fuel = n + 2 :=
    ⟨fuel - 2, by simp only [isTokens, cons_append, length_cons] at enough; omega⟩
  obtain ⟨after, read, held, -, kept, shown⟩ := reads first b start pos shape rest r (fuel + 1) holds outside ends.notOpen at'
    (by omega)
  rw [parsePart_ends ends] at read
  exact ⟨after, read, held, kept, shown⟩

theorem Word.tokens_head (word : Word) (grammatical : word.Grammatical) :
    ∃ t tokens, word.tokens = t :: tokens ∧ t.isWhitespace = false ∧ t.isRedirect = false ∧
      t.isCommandTerminator = false := by
  cases word with
  | last piece => exact piece.tokens_head grammatical
  | cons piece rest =>
    obtain ⟨t, tokens, isTokens, solid⟩ := piece.tokens_head grammatical.1
    exact ⟨t, tokens ++ rest.tokens, by rw [Word.tokens, isTokens, cons_append], solid⟩

theorem Word.Reads.cons {piece : Piece} {word : Word} (reads : piece.Reads source) (others : word.Reads source)
    (grammatical : (Word.cons piece word).Grammatical) : (Word.cons piece word).Reads source := by
  intro first b start pos shape rest r fuel holds outside ends at' enough
  obtain ⟨t, tokens, isTokens, -⟩ := piece.tokens_head grammatical.1
  obtain ⟨u, more, isMore, -, -, notTerminator⟩ := word.tokens_head grammatical.2
  have notOpen : (word.tokens ++ rest).head? ≠ some .openParen := by
    rw [isMore]
    intro opens
    cases opens
    cases notTerminator
  rw [Word.tokens, append_assoc] at at' enough ⊢
  obtain ⟨fuel, rfl⟩ : ∃ n, fuel = n + 1 := ⟨fuel - 1, by omega⟩
  obtain ⟨middle, read, held, outside', kept, shown⟩ := reads first b start pos shape (word.tokens ++ rest) r fuel holds outside
    notOpen at' (by omega)
  obtain ⟨after, readRest, heldRest, keptRest, shownRest⟩ := others first middle start (pos + width piece.tokens)
    (piece.shape shape) rest r fuel held outside' ends at'.right
    (by simp only [isTokens, cons_append, length_cons, length_append] at enough ⊢; omega)
  rw [width_append, ← Nat.add_assoc, read]
  exact ⟨after, readRest, heldRest, List.Subset.trans kept keptRest, Shown.append (shown.mono keptRest) shownRest⟩

end Warp.Completer
