import Warp.Completer.ByteLexer
import Warp.Completer.Parser

namespace Warp.Completer

open List

/-! The tree that the parser builds from the tokens of the lexer in bytes, for every source. -/

section Tidy

/-- A span on character boundaries between two positions. -/
structure Span.Fits (source : Str) (lo hi : ℕ) (s : Span) : Prop where
  after : lo ≤ s.start
  order : s.start ≤ s.stop
  before : s.stop ≤ hi
  starts : Str.IsBoundary source s.start
  stops : Str.IsBoundary source s.stop

inductive Chain {α : Type} (source : Str) (P : α → Span → Prop) : ℕ → List (Spanned α) → ℕ → Prop
  | nil {lo hi : ℕ} : Chain source P hi [] lo
  | cons {lo hi : ℕ} {item : α} {span : Span} {items : List (Spanned α)} (fits : span.Fits source lo hi)
    (inner : P item span) (rest : Chain source P hi items span.stop) : Chain source P hi (⟨item, span⟩ :: items) lo

mutual

/-- What stands in a command or a part stands there in order. -/
inductive Command.Tidy (source : Str) : Command → Span → Prop
  | new {parts : List (Spanned Part)} {span : Span} (chain : Chain source (Part.Tidy source) span.stop parts span.start) :
    Command.Tidy source (.new parts) span

inductive Part.Tidy (source : Str) : Part → Span → Prop
  | literal {value : Str} {span : Span} : Part.Tidy source (.literal value) span
  | closedSubshell {commands : List (Spanned Command)} {span : Span}
    (chain : Chain source (Command.Tidy source) span.stop commands span.start) :
    Part.Tidy source (.closedSubshell commands) span
  | openSubshell {commands : List (Spanned Command)} {span : Span}
    (chain : Chain source (Command.Tidy source) span.stop commands span.start) :
    Part.Tidy source (.openSubshell commands) span
  | concatenated {parts : List (Spanned Part)} {span : Span}
    (chain : Chain source (Part.Tidy source) span.stop parts span.start) : Part.Tidy source (.concatenated parts) span

end

def Spanned.TidyPart (source : Str) (lo hi : ℕ) (part : Spanned Part) : Prop :=
  part.span.Fits source lo hi ∧ Part.Tidy source part.item part.span

variable {source : Str} {lo mid hi : ℕ} {span : Span} {α : Type} {P : α → Span → Prop} {items more : List (Spanned α)}

theorem Span.Fits.mono {lo' hi' : ℕ} (fits : span.Fits source lo hi) (low : lo' ≤ lo) (high : hi ≤ hi') :
    span.Fits source lo' hi' :=
  ⟨Nat.le_trans low fits.after, fits.order, Nat.le_trans fits.before high, fits.starts, fits.stops⟩

namespace Chain

theorem mono {lo' hi' : ℕ} (chain : Chain source P hi items lo) (low : lo' ≤ lo) (high : hi ≤ hi') :
    Chain source P hi' items lo' := by
  induction chain generalizing lo' with
  | nil => exact .nil
  | cons fits inner rest ih => exact .cons (fits.mono low high) inner (ih (Nat.le_refl _) high)

theorem append (order : mid ≤ hi) (chain : Chain source P mid items lo) (behind : Chain source P hi more mid)
    (low : lo ≤ mid) : Chain source P hi (items ++ more) lo := by
  induction items generalizing lo with
  | nil => exact behind.mono low (Nat.le_refl hi)
  | cons item items ih =>
    obtain _ | ⟨fits, inner, rest⟩ := chain
    exact .cons (fits.mono (Nat.le_refl _) order) inner (ih rest fits.before)

theorem concat {item : α} {span : Span} (order : mid ≤ hi) (chain : Chain source P mid items lo)
    (fits : span.Fits source mid hi) (inner : P item span) (low : lo ≤ mid) :
    Chain source P hi (items ++ [⟨item, span⟩]) lo :=
  chain.append order (.cons fits inner .nil) low

theorem last (chain : Chain source P hi items lo) :
    ∀ last ∈ items.getLast?, Str.IsBoundary source last.span.stop ∧ lo ≤ last.span.stop := by
  induction chain with
  | nil => nofun
  | @cons lo hi item span items fits inner rest ih =>
    intro last isLast
    have forth := Nat.le_trans fits.after fits.order
    cases items with
    | nil =>
      cases isLast
      exact ⟨fits.stops, forth⟩
    | cons other items =>
      obtain ⟨boundary, behind⟩ := ih last (by rwa [List.getLast?_cons_cons] at isLast)
      exact ⟨boundary, Nat.le_trans forth behind⟩

end Chain

end Tidy

/-! The parser's input. -/

section Input

variable {source : Str} {lo mid hi pos : ℕ}

/-- The tokens end in order, on character boundaries, from `pos` up to `hi`. -/
inductive Stops (source : Str) (hi : ℕ) : ℕ → List (Spanned Token) → Prop
  | nil {pos : ℕ} (boundary : Str.IsBoundary source pos) (bound : pos ≤ hi) : Stops source hi pos []
  | cons {pos : ℕ} {t : Spanned Token} {tokens : List (Spanned Token)} (boundary : Str.IsBoundary source pos)
    (order : pos ≤ t.span.stop) (rest : Stops source hi t.span.stop tokens) : Stops source hi pos (t :: tokens)

namespace Stops

variable {tokens more : List (Spanned Token)}

theorem boundary (stops : Stops source hi pos tokens) : Str.IsBoundary source pos := by
  cases stops <;> assumption

theorem bound (stops : Stops source hi pos tokens) : pos ≤ hi := by
  induction stops with
  | nil boundary bound => exact bound
  | cons boundary order rest ih => exact Nat.le_trans order ih

theorem earlier {next : ℕ} (stops : Stops source hi next tokens) (order : pos ≤ next)
    (boundary : Str.IsBoundary source pos) : Stops source hi pos tokens := by
  cases stops with
  | nil _ bound => exact .nil boundary (Nat.le_trans order bound)
  | cons _ behind rest => exact .cons boundary (Nat.le_trans order behind) rest

theorem append_iff : Stops source hi pos (tokens ++ more) ↔
    let last := (tokens.getLast?.map fun t => t.span.stop).getD pos
    Stops source last pos tokens ∧ Stops source hi last more := by
  induction tokens generalizing pos with
  | nil => exact ⟨fun stops => ⟨.nil stops.boundary (Nat.le_refl _), stops⟩, fun both => both.2⟩
  | cons t tokens ih =>
    have same : ((t :: tokens).getLast?.map fun t => t.span.stop).getD pos =
        (tokens.getLast?.map fun t => t.span.stop).getD t.span.stop := by
      cases tokens with
      | nil => rfl
      | cons u tokens =>
        rw [List.getLast?_cons_cons]
        obtain ⟨last, isLast⟩ : ∃ last, (u :: tokens).getLast? = some last :=
          ⟨_, List.getLast?_eq_some_getLast (cons_ne_nil _ _)⟩
        rw [isLast]
        rfl
    rw [same]
    constructor
    · rintro (_ | ⟨boundary, order, rest⟩)
      obtain ⟨front, back⟩ := ih.mp rest
      exact ⟨.cons boundary order front, back⟩
    · rintro ⟨_ | ⟨boundary, order, front⟩, back⟩
      exact .cons boundary order (ih.mpr ⟨front, back⟩)

end Stops

namespace Parser

def left (p : Parser) : ℕ := p.tokens.tokens.length

def Sound (source : Str) (hi : ℕ) (p : Parser) : Prop := Stops source hi p.pos p.tokens.tokens

structure Steps (source : Str) (hi : ℕ) (p p' : Parser) : Prop where
  sound : p'.Sound source hi
  forth : p.pos ≤ p'.pos
  fewer : p'.left ≤ p.left

variable {p p' p'' : Parser} {t : Token}

theorem Sound.refl (sound : p.Sound source hi) : Steps source hi p p := ⟨sound, Nat.le_refl _, Nat.le_refl _⟩

theorem Steps.trans (steps : Steps source hi p p') (steps' : Steps source hi p' p'') : Steps source hi p p'' :=
  ⟨steps'.sound, Nat.le_trans steps.forth steps'.forth, Nat.le_trans steps'.fewer steps.fewer⟩

theorem peek_eq_some_iff : p.peek = some t ↔ ∃ span tokens, p.tokens.tokens = ⟨t, span⟩ :: tokens := by
  unfold peek ParserInput.peek
  cases p.tokens.tokens with
  | nil => simp
  | cons u tokens =>
    constructor
    · intro same
      exact ⟨u.span, tokens, by rw [← Option.some.inj same]⟩
    · rintro ⟨span, tokens', same⟩
      rw [(List.cons.inj same).1]
      rfl

theorem left_next (known : p.peek = some t) : p.next.left + 1 = p.left := by
  obtain ⟨span, tokens, isTokens⟩ := peek_eq_some_iff.mp known
  unfold left next ParserInput.next
  simp [isTokens]

theorem Sound.next (sound : p.Sound source hi) : Steps source hi p p.next := by
  obtain ⟨⟨tokens, pos⟩, redirected⟩ := p
  cases tokens with
  | nil => exact sound.refl
  | cons t tokens =>
    obtain _ | ⟨boundary, order, rest⟩ := sound
    exact ⟨rest, order, Nat.le_succ _⟩

theorem Sound.redirect (sound : p.Sound source hi) : Steps source hi p p.redirect :=
  ⟨sound.next.sound, sound.next.forth, sound.next.fewer⟩

theorem left_redirect (known : p.peek = some t) : p.redirect.left + 1 = p.left := left_next known

theorem Sound.skipWhitespace (sound : p.Sound source hi) : Steps source hi p p.skipWhitespace := by
  obtain ⟨⟨tokens, pos⟩, redirected⟩ := p
  suffices skips : ∀ tokens pos, Stops source hi pos tokens →
      Stops source hi (skipWhitespace.go tokens pos).pos (skipWhitespace.go tokens pos).tokens ∧
        pos ≤ (skipWhitespace.go tokens pos).pos ∧ (skipWhitespace.go tokens pos).tokens.length ≤ tokens.length by
    obtain ⟨stops, forth, fewer⟩ := skips tokens pos sound
    exact ⟨stops, forth, fewer⟩
  intro tokens
  induction tokens with
  | nil => exact fun pos stops => ⟨stops, Nat.le_refl _, Nat.le_refl _⟩
  | cons t tokens ih =>
    intro pos stops
    rw [skipWhitespace.go]
    split
    · obtain _ | ⟨boundary, order, rest⟩ := stops
      obtain ⟨stops, forth, fewer⟩ := ih _ rest
      exact ⟨stops, Nat.le_trans order forth, Nat.le_succ_of_le fewer⟩
    · exact ⟨stops, Nat.le_refl _, Nat.le_refl _⟩

theorem peek_skipWhitespace (known : p.skipWhitespace.peek = some t) : t.isWhitespace = false := by
  obtain ⟨⟨tokens, pos⟩, redirected⟩ := p
  suffices skips : ∀ tokens pos, (skipWhitespace.go tokens pos).peek = some t → t.isWhitespace = false from
    skips tokens pos known
  intro tokens
  induction tokens with
  | nil => exact fun pos known => by cases known
  | cons u tokens ih =>
    intro pos known
    rw [skipWhitespace.go] at known
    split at known
    · exact ih _ known
    · rename_i solid
      cases known
      simpa using solid

theorem skipWhitespace_of_solid (known : p.peek = some t) (solid : t.isWhitespace = false) : p.skipWhitespace = p := by
  obtain ⟨span, tokens, isTokens⟩ := peek_eq_some_iff.mp known
  obtain ⟨⟨tokens', pos⟩, redirected⟩ := p
  obtain rfl : tokens' = ⟨t, span⟩ :: tokens := isTokens
  simp [skipWhitespace, skipWhitespace.go, solid, Parser.pos]

theorem Sound.boundary (sound : p.Sound source hi) : Str.IsBoundary source p.pos := Stops.boundary sound

theorem Sound.bound (sound : p.Sound source hi) : p.pos ≤ hi := Stops.bound sound

theorem Sound.span (sound : p.Sound source hi) (steps : Steps source hi p p') :
    (p'.span p.pos).Fits source p.pos p'.pos :=
  ⟨Nat.le_refl _, steps.forth, Nat.le_refl _, Stops.boundary sound, Stops.boundary steps.sound⟩

end Parser

end Input

/-! The builder of a part. -/

section Builder

variable {source : Str} {pos pos' : ℕ} {b : PartBuilder} {part : Spanned Part}

namespace PartBuilder

/-- What is built so far stands before the text of the buffer, and that before `pos`. -/
structure Tidy (source : Str) (pos : ℕ) (b : PartBuilder) : Prop where
  parts : Chain source (Part.Tidy source) b.bufferStart b.subParts b.start
  order : b.start ≤ b.bufferStart
  before : b.bufferStart ≤ pos
  starts : Str.IsBoundary source b.start
  buffers : Str.IsBoundary source b.bufferStart

theorem Tidy.new (boundary : Str.IsBoundary source pos) : (new pos).Tidy source pos :=
  ⟨.nil, Nat.le_refl _, Nat.le_refl _, boundary, boundary⟩

section

variable (tidy : b.Tidy source pos)
include tidy

theorem Tidy.mono (order : pos ≤ pos') : b.Tidy source pos' :=
  { tidy with before := Nat.le_trans tidy.before order }

theorem Tidy.addRaw (value : Str) : (b.addRaw value).Tidy source pos :=
  ⟨tidy.parts, tidy.order, tidy.before, tidy.starts, tidy.buffers⟩

theorem Tidy.flushed {stop : ℕ} (order : pos ≤ stop) (boundary : Str.IsBoundary source stop) :
    Chain source (Part.Tidy source) stop
      (if b.buffer = [] then b.subParts else b.subParts ++ [⟨.literal b.buffer, ⟨b.bufferStart, stop⟩⟩]) b.start := by
  have reached := Nat.le_trans tidy.before order
  split
  · exact tidy.parts.mono (Nat.le_refl _) reached
  · exact tidy.parts.concat reached ⟨Nat.le_refl _, reached, Nat.le_refl _, tidy.buffers, boundary⟩ .literal tidy.order

theorem Tidy.addPart (isPart : part.TidyPart source pos pos') :
    (b.addPart part).Tidy source pos' := by
  obtain ⟨item, span⟩ := part
  obtain ⟨fits, inner⟩ := isPart
  have flushed := tidy.flushed fits.after fits.starts
  have low : b.start ≤ span.start := Nat.le_trans tidy.order (Nat.le_trans tidy.before fits.after)
  have behind : b.start ≤ span.stop := Nat.le_trans low fits.order
  have whole := flushed.concat fits.order ⟨Nat.le_refl _, fits.order, Nat.le_refl _, fits.starts, fits.stops⟩ inner low
  cases inner with
  | concatenated chain =>
    exact ⟨flushed.append fits.order chain low, behind, fits.before, tidy.starts, fits.stops⟩
  | literal => exact ⟨whole, behind, fits.before, tidy.starts, fits.stops⟩
  | closedSubshell chain => exact ⟨whole, behind, fits.before, tidy.starts, fits.stops⟩
  | openSubshell chain => exact ⟨whole, behind, fits.before, tidy.starts, fits.stops⟩

end

theorem addPart_start (b : PartBuilder) (part : Spanned Part) : (b.addPart part).start = b.start := by
  unfold addPart
  dsimp only
  split <;> rfl

theorem Tidy.complete (tidy : b.Tidy source pos) (boundary : Str.IsBoundary source pos) :
    (b.complete pos).TidyPart source b.start pos := by
  have flushed := tidy.flushed (Nat.le_refl _) boundary
  have whole : (⟨b.start, pos⟩ : Span).Fits source b.start pos :=
    ⟨Nat.le_refl _, Nat.le_trans tidy.order tidy.before, Nat.le_refl _, tidy.starts, boundary⟩
  unfold PartBuilder.complete
  dsimp only
  split
  · exact ⟨whole, .literal⟩
  · rename_i part isPart
    rw [isPart] at flushed
    obtain _ | ⟨fits, inner, rest⟩ := flushed
    exact ⟨fits, inner⟩
  · exact ⟨whole, .concatenated flushed⟩

end PartBuilder

end Builder

/-! The recursive descent, at any fuel from what the tokens left ask for. -/

section Settled

variable {β : Type} {f : ℕ → β} {need : ℕ} {post : β → Prop}

/-- From `need` on the fuel does not matter, and the result is as `post` has it. -/
def Settled (f : ℕ → β) (need : ℕ) (post : β → Prop) : Prop := ∃ r, (∀ fuel, need ≤ fuel → f fuel = r) ∧ post r

theorem Settled.result (settled : Settled f need post) : ∃ r, (∀ fuel, need ≤ fuel → f fuel = r) ∧ post r := settled

/-- A round takes one of the fuel. -/
theorem Settled.of_round (r : β) (step : ∀ fuel, need ≤ fuel → f (fuel + 1) = r) (known : post r) :
    Settled f (need + 1) post := by
  refine ⟨r, fun fuel enough => ?_, known⟩
  obtain ⟨fuel, rfl⟩ : ∃ k, fuel = k + 1 := ⟨fuel - 1, by omega⟩
  exact step fuel (by omega)

end Settled

def Token.startsWord (token : Token) : Bool :=
  !token.isWhitespace && !token.isRedirect && !token.isCommandTerminator

namespace Parser

section Rounds

variable {p : Parser} {token : Token} {delimiter : Option Token} {firstPart : Bool} {b : PartBuilder}

attribute [local simp] Token.isWhitespace Token.isRedirect Token.isCommandTerminator Token.isValidCommandSeparator

theorem parseCommandList_round (known : p.skipWhitespace.peek = some token) (inside : delimiter ≠ some token) :
    (∃ closer, ∀ fuel, parseCommandList delimiter (fuel + 1) p =
      let nested := parseCommandList (some closer) fuel p.skipWhitespace.next
      let rest := parseCommandList delimiter fuel nested.2
      (nested.1 ++ rest.1, rest.2)) ∨
    (∃ q, (q = p.skipWhitespace.next ∨ q = p.skipWhitespace.redirect) ∧
      ∀ fuel, parseCommandList delimiter (fuel + 1) p = parseCommandList delimiter fuel q) ∨
    (token.startsWord = true ∧ ∀ fuel, parseCommandList delimiter (fuel + 1) p =
      let first := parseCommand fuel p.skipWhitespace
      let rest := parseCommandList delimiter fuel first.2
      (first.1 :: rest.1, rest.2)) := by
  have solid := peek_skipWhitespace known
  cases token with
  | whitespace value => cases solid
  | openParen => exact .inl ⟨.closeParen, fun fuel => by rw [parseCommandList]; simp [known, inside]⟩
  | openCurly => exact .inl ⟨.closeCurly, fun fuel => by rw [parseCommandList]; simp [known, inside]⟩
  | redirectInput | redirectOutput =>
    exact .inr (.inl ⟨_, .inr rfl, fun fuel => by rw [parseCommandList]; simp [known, inside]⟩)
  | closeParen | closeCurly | pipe | logicalOr | ampersand | logicalAnd | semicolon | newline =>
    exact .inr (.inl ⟨_, .inl rfl, fun fuel => by rw [parseCommandList]; simp [known, inside]⟩)
  | literal | escapeChar | backtick | dollar | singleQuote | doubleQuote =>
    exact .inr (.inr ⟨rfl, fun fuel => by rw [parseCommandList]; simp [known, inside]⟩)

inductive ReadsPiece (p : Parser) : (ℕ → Spanned Part × Parser) → Prop
  | single : ReadsPiece p fun _ => parseSingleQuotedPart p
  | double : ReadsPiece p fun fuel => parseDoubleQuotedPart (.new p.pos) fuel p.next
  | backtick : ReadsPiece p fun fuel => parseBacktickedSubshell fuel p
  | dollar : ReadsPiece p fun fuel => parseDollarSubshell fuel p

theorem parsePart_round (known : p.peek = some token) :
    (token.startsWord = false ∧ ∀ fuel, parsePart firstPart b (fuel + 1) p = (b.complete p.pos, p)) ∨
    (∃ value q, (q = p.next ∨ q = p.next.next ∨ q = p.redirect) ∧
      ∀ fuel, parsePart firstPart b (fuel + 1) p = parsePart firstPart (b.addRaw value) fuel q) ∨
    (∃ piece, ReadsPiece p piece ∧ ∀ fuel, parsePart firstPart b (fuel + 1) p =
      parsePart firstPart (b.addPart (piece fuel).1) fuel (piece fuel).2) := by
  cases token with
  | whitespace value | pipe | logicalOr | ampersand | logicalAnd | semicolon | newline | openParen | closeParen |
    openCurly | closeCurly =>
    exact .inl ⟨rfl, fun fuel => by rw [parsePart]; simp [known]⟩
  | redirectInput | redirectOutput =>
    exact .inr (.inl ⟨[], _, .inr (.inr rfl), fun fuel => by rw [parsePart]; simp [known, PartBuilder.addRaw]⟩)
  | literal value =>
    exact .inr (.inl ⟨_, _, .inl rfl, fun fuel => by rw [parsePart]; simp [known]; rfl⟩)
  | escapeChar value =>
    exact .inr (.inl ⟨_, _, .inr (.inl rfl), fun fuel => by rw [parsePart]; simp [known]; rfl⟩)
  | backtick =>
    exact .inr (.inr ⟨_, .backtick, fun fuel => by rw [parsePart]; simp [known]⟩)
  | singleQuote =>
    exact .inr (.inr ⟨_, .single, fun fuel => by rw [parsePart]; simp [known]⟩)
  | doubleQuote =>
    exact .inr (.inr ⟨_, .double, fun fuel => by rw [parsePart]; simp [known]⟩)
  | dollar =>
    by_cases opens : p.tokens.peekpeek = some .openParen
    · exact .inr (.inr ⟨_, .dollar, fun fuel => by rw [parsePart]; simp [known, opens]⟩)
    · exact .inr (.inl ⟨Token.dollar.asStr, _, .inl rfl, fun fuel => by rw [parsePart]; simp [known, opens]⟩)

theorem parseDoubleQuotedPart_round (known : p.peek = some token) :
    (∀ fuel, parseDoubleQuotedPart b (fuel + 1) p = (b.complete p.next.pos, p.next)) ∨
    (∃ value q, (q = p.next ∨ q = p.next.next) ∧
      ∀ fuel, parseDoubleQuotedPart b (fuel + 1) p = parseDoubleQuotedPart (b.addRaw value) fuel q) ∨
    (∃ piece, (piece = (fun fuel => parseBacktickedSubshell fuel p) ∨ piece = fun fuel => parseDollarSubshell fuel p) ∧
      ∀ fuel, parseDoubleQuotedPart b (fuel + 1) p =
        parseDoubleQuotedPart (b.addPart (piece fuel).1) fuel (piece fuel).2) := by
  cases token with
  | doubleQuote => exact .inl fun fuel => by rw [parseDoubleQuotedPart]; simp [known]
  | backtick => exact .inr (.inr ⟨_, .inl rfl, fun fuel => by rw [parseDoubleQuotedPart]; simp [known]⟩)
  | escapeChar value =>
    exact .inr (.inl ⟨_, _, .inr rfl, fun fuel => by rw [parseDoubleQuotedPart]; simp [known]; rfl⟩)
  | dollar =>
    by_cases opens : p.tokens.peekpeek = some .openParen
    · exact .inr (.inr ⟨_, .inr rfl, fun fuel => by rw [parseDoubleQuotedPart]; simp [known, opens]⟩)
    · exact .inr (.inl ⟨Token.dollar.asStr, _, .inl rfl, fun fuel => by rw [parseDoubleQuotedPart]; simp [known, opens]⟩)
  | literal | whitespace | pipe | logicalOr | ampersand | logicalAnd | semicolon | newline | openParen | closeParen |
    openCurly | closeCurly | singleQuote | redirectInput | redirectOutput =>
    exact .inr (.inl ⟨_, _, .inl rfl, fun fuel => by rw [parseDoubleQuotedPart]; simp [known]; rfl⟩)

end Rounds

section Descent

variable {source : Str} {hi : ℕ} {p p' : Parser} {token : Token}

structure Piece (source : Str) (hi : ℕ) (p : Parser) (r : Spanned Part × Parser) : Prop where
  steps : Steps source hi p r.2
  tidy : r.1.TidyPart source p.pos r.2.pos
  fewer : r.2.left < p.left

structure Built (source : Str) (hi : ℕ) (b : PartBuilder) (p : Parser) (r : Spanned Part × Parser) : Prop where
  steps : Steps source hi p r.2
  tidy : r.1.TidyPart source b.start r.2.pos

theorem Sound.singleQuoted (buffer : Str) (fuel : ℕ) (sound : p.Sound source hi) :
    Steps source hi p (singleQuoted buffer fuel p).2 := by
  induction fuel generalizing buffer p with
  | zero => exact sound.refl
  | succ fuel ih =>
    rw [Parser.singleQuoted]
    split
    · exact sound.refl
    · exact sound.next
    · exact sound.next.trans (ih _ sound.next.sound)

theorem piece_single (sound : p.Sound source hi) (known : p.peek = some token) :
    Piece source hi p (parseSingleQuotedPart p) := by
  have steps := sound.next.trans (Sound.singleQuoted [] p.next.tokens.tokens.length sound.next.sound)
  have fewer := (Sound.singleQuoted [] p.next.tokens.tokens.length sound.next.sound).fewer
  exact ⟨steps, ⟨sound.span steps, .literal⟩, Nat.lt_of_le_of_lt fewer (Nat.lt_of_succ_le (left_next known).le)⟩

theorem Sound.untilBacktick (sound : p.Sound source hi) :
    ∃ last, (withTokens p.tokens.untilBacktick.1).Sound source last ∧
      (withTokens p.tokens.untilBacktick.1).left ≤ p.left ∧
      Steps source hi p { p with tokens := p.tokens.untilBacktick.2 } ∧ last ≤ p.tokens.untilBacktick.2.pos := by
  have stops : Stops source hi p.pos (p.tokens.tokens.takeWhile (fun t => t.item ≠ .backtick) ++
      p.tokens.tokens.dropWhile fun t => t.item ≠ .backtick) := by
    rw [takeWhile_append_dropWhile]
    exact sound
  obtain ⟨front, back⟩ := Stops.append_iff.mp stops
  refine ⟨_, front, (takeWhile_sublist _).length_le, ⟨back, front.bound, ?_⟩, Nat.le_refl _⟩
  exact (dropWhile_sublist _).length_le

theorem piece_substitution {commands : List (Spanned Command)} (sound : p.Sound source hi) (known : p.peek = some token)
    (steps : Steps source hi p.next p') (tidy : Chain source (Command.Tidy source) p'.pos commands p.pos) :
    Piece source hi p (match p'.peek with
      | none => (⟨.openSubshell commands, p'.span p.pos⟩, p')
      | some _ => (⟨.closedSubshell commands, p'.next.span p.pos⟩, p'.next)) := by
  have whole := sound.next.trans steps
  have fewer : p'.left < p.left := Nat.lt_of_le_of_lt steps.fewer (Nat.lt_of_succ_le (left_next known).le)
  cases p'.peek with
  | none => exact ⟨whole, ⟨sound.span whole, .openSubshell tidy⟩, fewer⟩
  | some _ =>
    have closed := whole.trans steps.sound.next
    exact ⟨closed, ⟨sound.span closed, .closedSubshell (tidy.mono (Nat.le_refl _) steps.sound.next.forth)⟩,
      Nat.lt_of_le_of_lt steps.sound.next.fewer fewer⟩

mutual

theorem settled_list (delimiter : Option Token) (p : Parser) {hi : ℕ} (sound : p.Sound source hi) :
    Settled (parseCommandList delimiter · p) (8 * p.left + 8) fun r =>
      Steps source hi p r.2 ∧ Chain source (Command.Tidy source) r.2.pos r.1 p.pos ∧
        (r.2.peek = none ∨ r.2.peek = delimiter) := by
  have skips := sound.skipWhitespace
  have fewer := skips.fewer
  cases known : p.skipWhitespace.peek with
  | none =>
    refine .of_round ([], p.skipWhitespace) (fun fuel _ => ?_) ⟨skips, .nil, .inl known⟩
    rw [parseCommandList]
    simp [known]
  | some token =>
    by_cases inside : delimiter = some token
    · refine .of_round ([], p.skipWhitespace) (fun fuel _ => ?_) ⟨skips, .nil, .inr (known.trans inside.symm)⟩
      rw [parseCommandList]
      simp [known, inside]
    have once := left_next known
    have nexts := skips.trans skips.sound.next
    rcases parseCommandList_round known inside with ⟨closer, round⟩ | ⟨q, isNext, round⟩ | ⟨word, round⟩
    · obtain ⟨nested, ran, steps, tidy, -⟩ := (settled_list (some closer) p.skipWhitespace.next nexts.sound).result
      have fewer' := steps.fewer
      obtain ⟨rest, ran', steps', tidy', ends⟩ := (settled_list delimiter nested.2 steps.sound).result
      refine .of_round (nested.1 ++ rest.1, rest.2) (fun fuel enough => ?_) ⟨(nexts.trans steps).trans steps', ?_, ends⟩
      · rw [round fuel]
        dsimp only
        rw [ran fuel (by omega), ran' fuel (by omega)]
      · exact (tidy.mono nexts.forth (Nat.le_refl _)).append steps'.forth tidy' (nexts.trans steps).forth
    · have steps : Steps source hi p q ∧ q.left + 1 = p.skipWhitespace.left := by
        rcases isNext with rfl | rfl
        · exact ⟨nexts, once⟩
        · exact ⟨skips.trans skips.sound.redirect, left_redirect known⟩
      have fewer' := steps.2
      obtain ⟨rest, ran, steps', tidy, ends⟩ := (settled_list delimiter q steps.1.sound).result
      refine .of_round rest (fun fuel enough => ?_)
        ⟨steps.1.trans steps', tidy.mono steps.1.forth (Nat.le_refl _), ends⟩
      rw [round fuel, ran fuel (by omega)]
    · obtain ⟨first, ran, steps, tidy, progress⟩ := (settled_command p.skipWhitespace skips.sound).result
      have fewer' := progress token known word
      obtain ⟨rest, ran', steps', tidy', ends⟩ := (settled_list delimiter first.2 steps.sound).result
      refine .of_round (first.1 :: rest.1, rest.2) (fun fuel enough => ?_) ⟨(skips.trans steps).trans steps', ?_, ends⟩
      · rw [round fuel]
        dsimp only
        rw [ran fuel (by omega), ran' fuel (by omega)]
      · exact .cons (tidy.1.mono skips.forth steps'.forth) tidy.2 (tidy'.mono tidy.1.before (Nat.le_refl _))
termination_by 8 * p.left + 8

theorem settled_command (p : Parser) {hi : ℕ} (sound : p.Sound source hi) :
    Settled (parseCommand · p) (8 * p.left + 7) fun r =>
      Steps source hi p r.2 ∧ (r.1.span.Fits source p.pos r.2.pos ∧ Command.Tidy source r.1.item r.1.span) ∧
        ∀ token, p.peek = some token → token.startsWord = true → r.2.left < p.left := by
  obtain ⟨read, ran, steps, tidy, progress⟩ := (settled_parts p.pos [] p sound .nil (Nat.le_refl _)).result
  refine .of_round (⟨.new read.1, read.2.span p.pos⟩, read.2) (fun fuel enough => ?_)
    ⟨steps, ⟨sound.span steps, .new tidy⟩, progress⟩
  rw [parseCommand, ran fuel (by omega)]
termination_by 8 * p.left + 7

theorem settled_parts (start : ℕ) (parts : List (Spanned Part)) (p : Parser) {hi : ℕ} (sound : p.Sound source hi)
    (tidy : Chain source (Part.Tidy source) p.pos parts start) (low : start ≤ p.pos) :
    Settled (parseParts parts · p) (8 * p.left + 6) fun r =>
      Steps source hi p r.2 ∧ Chain source (Part.Tidy source) r.2.pos r.1 start ∧
        ∀ token, p.peek = some token → token.startsWord = true → r.2.left < p.left := by
  have skips := sound.skipWhitespace
  have fewer := skips.fewer
  have tidy' := tidy.mono (Nat.le_refl _) skips.forth
  have low' := Nat.le_trans low skips.forth
  have same : ∀ token, p.peek = some token → token.startsWord = true → p.skipWhitespace = p := fun token known word =>
    skipWhitespace_of_solid known (by simp [Token.startsWord] at word; exact word.1.1)
  cases known : p.skipWhitespace.peek with
  | none =>
    refine .of_round (parts, p.skipWhitespace) (fun fuel _ => ?_) ⟨skips, tidy', fun token here word => ?_⟩
    · rw [parseParts]
      simp [known]
    · rw [same token here word, here] at known
      cases known
  | some token =>
    have once := left_next known
    by_cases redirects : token.isRedirect = true
    · have redirected := skips.trans skips.sound.redirect
      have fewer' := left_redirect known
      obtain ⟨read, ran, steps, tidied, -⟩ := (settled_parts start parts p.skipWhitespace.redirect redirected.sound
        (tidy'.mono (Nat.le_refl _) skips.sound.redirect.forth) (Nat.le_trans low' skips.sound.redirect.forth)).result
      refine .of_round read (fun fuel enough => ?_) ⟨redirected.trans steps, tidied, fun _ _ _ => ?_⟩
      · rw [parseParts]
        simp [known, redirects, ran fuel (by omega)]
      · have := steps.fewer
        omega
    by_cases terminates : token.isCommandTerminator = true
    · refine .of_round (parts, p.skipWhitespace) (fun fuel _ => ?_) ⟨skips, tidy', fun token' here word => ?_⟩
      · rw [parseParts]
        simp [known, redirects, terminates]
      · rw [same token' here word, here] at known
        cases known
        simp [Token.startsWord, terminates] at word
    have word : token.startsWord = true := by
      simp [Token.startsWord, peek_skipWhitespace known, redirects, terminates]
    obtain ⟨part, ran, built, progress⟩ := (settled_part parts.isEmpty (.new p.skipWhitespace.pos) p.skipWhitespace
      skips.sound (.new skips.sound.boundary)).result
    have fewer' := progress token known word
    obtain ⟨read, ran', steps, tidied, -⟩ := (settled_parts start (parts ++ [part.1]) part.2 built.steps.sound
      (tidy'.concat built.steps.forth built.tidy.1 built.tidy.2 low') (Nat.le_trans low' built.steps.forth)).result
    refine .of_round read (fun fuel enough => ?_) ⟨(skips.trans built.steps).trans steps, tidied, fun _ _ _ => ?_⟩
    · rw [parseParts]
      simp [known, redirects, terminates, ran fuel (by omega), ran' fuel (by omega)]
    · have := steps.fewer
      omega
termination_by 8 * p.left + 6

theorem settled_part (firstPart : Bool) (b : PartBuilder) (p : Parser) {hi : ℕ} (sound : p.Sound source hi)
    (tidy : b.Tidy source p.pos) :
    Settled (parsePart firstPart b · p) (8 * p.left + 5) fun r =>
      Built source hi b p r ∧ ∀ token, p.peek = some token → token.startsWord = true → r.2.left < p.left := by
  cases known : p.peek with
  | none =>
    refine .of_round (b.complete p.pos, p) (fun fuel _ => ?_) ⟨⟨sound.refl, tidy.complete sound.boundary⟩, nofun⟩
    rw [parsePart]
    simp [known]
  | some token =>
    have once := left_next known
    rcases parsePart_round known with ⟨ends, round⟩ | ⟨value, q, isNext, round⟩ | ⟨piece, reads, round⟩
    · refine .of_round (b.complete p.pos, p) (fun fuel _ => round fuel)
        ⟨⟨sound.refl, tidy.complete sound.boundary⟩, fun token' here word => ?_⟩
      cases here
      rw [ends] at word
      cases word
    · have steps : Steps source hi p q ∧ q.left + 1 ≤ p.left := by
        have again := sound.next.sound.next
        rcases isNext with rfl | rfl | rfl
        · exact ⟨sound.next, once.le⟩
        · exact ⟨sound.next.trans again, by have := again.fewer; omega⟩
        · exact ⟨sound.redirect, once.le⟩
      have fewer := steps.2
      obtain ⟨part, ran, built, -⟩ := (settled_part firstPart (b.addRaw value) q steps.1.sound
        ((tidy.addRaw value).mono steps.1.forth)).result
      refine .of_round part (fun fuel enough => by rw [round fuel, ran fuel (by omega)])
        ⟨⟨steps.1.trans built.steps, built.tidy⟩, fun _ _ _ => ?_⟩
      have := built.steps.fewer
      omega
    · have settled : Settled piece (8 * p.left + 4) (Piece source hi p) := by
        cases reads with
        | single => exact ⟨_, fun _ _ => rfl, piece_single sound known⟩
        | backtick => exact settled_backtick p token sound known
        | dollar => exact settled_dollar p token sound known
        | double =>
          have nexts := sound.next
          obtain ⟨part, ran, built⟩ := (settled_doubleQuoted (.new p.pos) p.next nexts.sound
            ((PartBuilder.Tidy.new sound.boundary).mono nexts.forth)).result
          have := built.steps.fewer
          exact ⟨part, fun fuel enough => ran fuel (by omega), nexts.trans built.steps, built.tidy, by omega⟩
      obtain ⟨part, ran, read⟩ := settled
      have fewer := read.fewer
      obtain ⟨whole, ran', built, -⟩ := (settled_part firstPart (b.addPart part.1) part.2 read.steps.sound
        (tidy.addPart read.tidy)).result
      refine .of_round whole (fun fuel enough => ?_) ⟨⟨read.steps.trans built.steps, ?_⟩, fun _ _ _ => ?_⟩
      · rw [round fuel, ran fuel (by omega), ran' fuel (by omega)]
      · rw [← b.addPart_start part.1]
        exact built.tidy
      · have := built.steps.fewer
        omega
termination_by 8 * p.left + 5

theorem settled_doubleQuoted (b : PartBuilder) (p : Parser) {hi : ℕ} (sound : p.Sound source hi)
    (tidy : b.Tidy source p.pos) : Settled (parseDoubleQuotedPart b · p) (8 * p.left + 5) (Built source hi b p) := by
  cases known : p.peek with
  | none =>
    refine .of_round (b.complete p.pos, p) (fun fuel _ => ?_) ⟨sound.refl, tidy.complete sound.boundary⟩
    rw [parseDoubleQuotedPart]
    simp [known]
  | some token =>
    have once := left_next known
    have nexts := sound.next
    rcases parseDoubleQuotedPart_round known with round | ⟨value, q, isNext, round⟩ | ⟨piece, isPiece, round⟩
    · exact .of_round (b.complete p.next.pos, p.next) (fun fuel _ => round fuel)
        ⟨nexts, (tidy.mono nexts.forth).complete nexts.sound.boundary⟩
    · have steps : Steps source hi p q ∧ q.left + 1 ≤ p.left := by
        have again := nexts.sound.next
        rcases isNext with rfl | rfl
        · exact ⟨nexts, once.le⟩
        · exact ⟨nexts.trans again, by have := again.fewer; omega⟩
      have fewer := steps.2
      obtain ⟨part, ran, built⟩ := (settled_doubleQuoted (b.addRaw value) q steps.1.sound
        ((tidy.addRaw value).mono steps.1.forth)).result
      exact .of_round part (fun fuel enough => by rw [round fuel, ran fuel (by omega)])
        ⟨steps.1.trans built.steps, built.tidy⟩
    · have settled : Settled piece (8 * p.left + 4) (Piece source hi p) := by
        rcases isPiece with rfl | rfl
        · exact settled_backtick p token sound known
        · exact settled_dollar p token sound known
      obtain ⟨part, ran, read⟩ := settled
      have fewer := read.fewer
      obtain ⟨whole, ran', built⟩ := (settled_doubleQuoted (b.addPart part.1) part.2 read.steps.sound
        (tidy.addPart read.tidy)).result
      refine .of_round whole (fun fuel enough => ?_) ⟨read.steps.trans built.steps, ?_⟩
      · rw [round fuel, ran fuel (by omega), ran' fuel (by omega)]
      · rw [← b.addPart_start part.1]
        exact built.tidy
termination_by 8 * p.left + 5

theorem settled_backtick (p : Parser) (token : Token) {hi : ℕ} (sound : p.Sound source hi) (known : p.peek = some token) :
    Settled (parseBacktickedSubshell · p) (8 * p.left + 4) (Piece source hi p) := by
  have once := left_next known
  obtain ⟨last, front, fewer, steps, order⟩ := Sound.untilBacktick sound.next.sound
  obtain ⟨inner, ran, steps', tidy, -⟩ := (settled_list none (withTokens p.next.tokens.untilBacktick.1) front).result
  have within := Nat.le_trans steps'.sound.bound order
  have rest : Steps source hi p.next { p with tokens := p.next.tokens.untilBacktick.2 } := steps
  refine .of_round _ (fun fuel enough => ?_)
    (piece_substitution sound known rest (tidy.mono sound.next.forth within))
  cases ends : Parser.peek { p with tokens := p.next.tokens.untilBacktick.2 } <;>
    simp [parseBacktickedSubshell, ran fuel (by omega), ends]
termination_by 8 * p.left + 4

theorem settled_dollar (p : Parser) (token : Token) {hi : ℕ} (sound : p.Sound source hi) (known : p.peek = some token) :
    Settled (parseDollarSubshell · p) (8 * p.left + 4) (Piece source hi p) := by
  have once := left_next known
  have nexts := sound.next.sound.next
  have fewer := nexts.fewer
  obtain ⟨inner, ran, steps, tidy, -⟩ := (settled_list (some .closeParen) p.next.next nexts.sound).result
  refine .of_round _ (fun fuel enough => ?_)
    (piece_substitution sound known (nexts.trans steps) (tidy.mono (sound.next.trans nexts).forth (Nat.le_refl _)))
  cases ends : inner.2.peek <;> simp [parseDollarSubshell, ran fuel (by omega), ends]
termination_by 8 * p.left + 4

end

end Descent

end Parser

/-! The tokens of a source. -/

section Tokens

open ByteLexer

variable {source : Str} {count : ℕ}

theorem isBoundary_bytesAt (source : Str) (count : ℕ) : Str.IsBoundary source (bytesAt source count) :=
  ⟨source.take count, source.drop count, (take_append_drop count source).symm, rfl⟩

theorem stops_raw {c : Spanned Char} {classified : List Classified} {hi pos : ℕ} (boundary : Str.IsBoundary source pos)
    (order : pos ≤ bytesAt source c.span.stop)
    (stops : Stops source hi (bytesAt source c.span.stop) ((Lexer.yields classified).map (Spanned.bytes source))) :
    Stops source hi pos ((Lexer.yields (.raw c :: classified)).map (Spanned.bytes source)) := by
  rw [Lexer.yields.eq_def]
  dsimp only
  split
  · rename_i value span tokens yielded
    rw [yielded] at stops
    obtain _ | ⟨-, behind, rest⟩ := stops
    exact .cons boundary (Nat.le_trans order behind) rest
  · exact .cons boundary order stops

theorem stops_pending (escape : EscapeChar) (quotes : Bool) (bound : count ≤ source.length) :
    Stops source (bytesAt source source.length) (bytesAt source count)
      ((Lexer.yields (pending source escape quotes count)).map (Spanned.bytes source)) := by
  induction isLeft : source.length - count using Nat.strong_induction_on generalizing count with
  | _ left ih =>
    have boundary := isBoundary_bytesAt source
    cases here : source.drop count with
    | nil =>
      rw [pending_end here]
      exact .nil (boundary count) (bytesAt_mono bound)
    | cons chr rest =>
      obtain ⟨classified, more, positive, within, step, -⟩ := classifyNext_behind escape quotes here (Nat.le_refl _)
      have reads := classifyNext_reads here step
      rw [pending_step positive within step]
      rw [length_drop] at within
      have later := ih (source.length - (count + more)) (by omega) (show count + more ≤ source.length by omega) rfl
      have behind : ∀ n, bytesAt source count ≤ bytesAt source (count + n) := fun n => bytesAt_mono (Nat.le_add_right _ _)
      cases reads with
      | raw same => exact stops_raw (boundary count) (behind 1) later
      | token t more text same => exact .cons (boundary count) (behind more) later
      | lone alone => exact .cons (boundary count) (behind 1) later
      | escaped d t following split text same =>
        exact .cons (boundary count) (behind 1) (.cons (boundary _) (bytesAt_mono (by simp)) later)
      | run t more long text triple =>
        exact .cons (boundary count) (behind 2) 
          (later.earlier (bytesAt_mono (show count + 2 ≤ count + more by omega)) (boundary _))

end Tokens

/-! Decomposing a command, where each slice of the source is one of bytes. -/

section Slices

variable (source : Str)

def byteText (first last : Span) : Option Str := ((⟨first.start, last.stop⟩ : Span).byteSlice source).map Str.trim

def totalBytes {α : Type} (items : List (Spanned α)) : Option (List Str) :=
  match items.head?, items.getLast? with
  | some first, some last => (byteText source first.span last.span).map ([·])
  | _, _ => some []

def ownBytes (parts : List (Spanned Part)) : Option (List Str) :=
  (totalBytes source parts).map fun text => if parts.any fun part => part.item.isLiteral then text else []

mutual

/-- The texts of a command, or none where a slice panics. -/
def Command.decomposeBytes : Command → Option (List Str)
  | .new parts => do return (← partsBytes parts) ++ (← ownBytes source parts)

def partsBytes : List (Spanned Part) → Option (List Str)
  | [] => some []
  | ⟨part, _⟩ :: parts => do return (← Part.bytes part) ++ (← partsBytes parts)

def Part.bytes : Part → Option (List Str)
  | .literal _ => some []
  | .closedSubshell commands => do return (← totalBytes source commands) ++ (← commandsBytes commands)
  | .openSubshell commands => do return (← totalBytes source commands) ++ (← commandsBytes commands)
  | .concatenated parts => do
    return (← totalBytes source parts) ++ ((← partsBytes parts) ++ (← ownBytes source parts))

def commandsBytes : List (Spanned Command) → Option (List Str)
  | [] => some []
  | ⟨command, _⟩ :: commands => do return (← Command.decomposeBytes command) ++ (← commandsBytes commands)

end

end Slices

section Decomposition

variable {source : Str}

theorem Chain.total {α : Type} {P : α → Span → Prop} {items : List (Spanned α)} {lo hi : ℕ}
    (chain : Chain source P hi items lo) : ∃ texts, totalBytes source items = some texts := by
  have last := chain.last
  obtain _ | ⟨fits, inner, rest⟩ := chain
  · exact ⟨_, rfl⟩
  · rename_i item span items
    obtain ⟨tail, isLast⟩ : ∃ tail, (⟨item, span⟩ :: items).getLast? = some tail :=
      ⟨_, List.getLast?_eq_some_getLast (cons_ne_nil _ _)⟩
    have behind : span.start ≤ tail.span.stop := by
      cases items with
      | nil =>
        cases isLast
        exact fits.order
      | cons other items =>
        exact Nat.le_trans fits.order (rest.last tail (by rwa [List.getLast?_cons_cons] at isLast)).2
    obtain ⟨text, sliced⟩ := Str.exists_byteSlice fits.starts (last tail isLast).1 behind
    refine ⟨[Str.trim text], ?_⟩
    unfold totalBytes byteText Span.byteSlice
    rw [isLast]
    dsimp only [List.head?_cons]
    rw [sliced]
    rfl

theorem Chain.own {parts : List (Spanned Part)} {P : Part → Span → Prop} {lo hi : ℕ} (chain : Chain source P hi parts lo) :
    ∃ texts, ownBytes source parts = some texts := by
  obtain ⟨texts, total⟩ := chain.total
  exact ⟨_, congrArg (Option.map _) total⟩

mutual

theorem Command.Tidy.decompose {span : Span} : ∀ command : Command, command.Tidy source span →
    ∃ texts, command.decomposeBytes source = some texts
  | .new parts, .new chain => by
    obtain ⟨texts, nested⟩ := partsBytes_isSome parts chain
    obtain ⟨own, isOwn⟩ := chain.own
    exact ⟨_, by rw [Command.decomposeBytes, nested, isOwn]; rfl⟩

theorem partsBytes_isSome {lo hi : ℕ} : ∀ parts : List (Spanned Part), Chain source (Part.Tidy source) hi parts lo →
    ∃ texts, partsBytes source parts = some texts
  | [], _ => ⟨_, rfl⟩
  | ⟨part, _⟩ :: parts, .cons _ inner rest => by
    obtain ⟨texts, first⟩ := Part.Tidy.decompose part inner
    obtain ⟨more, others⟩ := partsBytes_isSome parts rest
    exact ⟨_, by rw [partsBytes, first, others]; rfl⟩

theorem Part.Tidy.decompose {span : Span} : ∀ part : Part, part.Tidy source span → ∃ texts, part.bytes source = some texts
  | .literal _, _ => ⟨_, rfl⟩
  | .closedSubshell commands, .closedSubshell chain | .openSubshell commands, .openSubshell chain => by
    obtain ⟨total, isTotal⟩ := chain.total
    obtain ⟨texts, nested⟩ := commandsBytes_isSome commands chain
    exact ⟨_, by rw [Part.bytes, isTotal, nested]; rfl⟩
  | .concatenated parts, .concatenated chain => by
    obtain ⟨total, isTotal⟩ := chain.total
    obtain ⟨texts, nested⟩ := partsBytes_isSome parts chain
    obtain ⟨own, isOwn⟩ := chain.own
    exact ⟨_, by rw [Part.bytes, isTotal, nested, isOwn]; rfl⟩

theorem commandsBytes_isSome {lo hi : ℕ} : ∀ commands : List (Spanned Command),
    Chain source (Command.Tidy source) hi commands lo → ∃ texts, commandsBytes source commands = some texts
  | [], _ => ⟨_, rfl⟩
  | ⟨command, _⟩ :: commands, .cons _ inner rest => by
    obtain ⟨texts, first⟩ := Command.Tidy.decompose command inner
    obtain ⟨more, others⟩ := commandsBytes_isSome commands rest
    exact ⟨_, by rw [commandsBytes, first, others]; rfl⟩

end

/-- Every source is read to its end, whatever the fuel from `fuelFor` on, and its commands stand in it in order, so that
decomposing them slices nothing but text. -/
theorem parse_tidy (source : Str) (escape : EscapeChar) (quotes : Bool) :
    ∃ tokens commands after, ByteLexer.tokens source escape quotes = some tokens ∧
      (∀ fuel, Parser.fuelFor tokens.length ≤ fuel →
        Parser.parseCommandList none fuel (.new tokens) = (commands, after)) ∧
      after.peek = none ∧ Chain source (Command.Tidy source) (Str.byteLen source) commands 0 ∧
      ∃ texts, commandsBytes source commands = some texts := by
  have stops : Stops source (bytesAt source source.length) (bytesAt source 0) _ :=
    stops_pending escape quotes (Nat.zero_le source.length)
  rw [bytesAt, take_length] at stops
  obtain ⟨⟨commands, after⟩, ran, steps, chain, ends⟩ := (Parser.settled_list none (.new _) stops).result
  exact ⟨_, commands, after, ByteLexer.tokens_eq source escape quotes, ran, or_self_iff.mp ends,
    chain.mono (Nat.le_refl _) (Parser.Sound.bound steps.sound), commandsBytes_isSome commands chain⟩

end Decomposition

end Warp.Completer
