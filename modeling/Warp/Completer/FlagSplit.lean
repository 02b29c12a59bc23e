import Warp.Completer.ParseTree

namespace Warp.Completer

mutual

/-- A substitution is not evaluated, a placeholder stands for it. -/
def Part.toStr : Part → Str
  | .literal value => value
  | .closedSubshell _ | .openSubshell _ => ['$', '(', '.', '.', '.', ')']
  | .concatenated parts => partsToStr parts

def partsToStr : List (Spanned Part) → Str
  | [] => []
  | ⟨part, _⟩ :: parts => part.toStr ++ partsToStr parts

end

def Spanned.toToken (part : Spanned Part) : Spanned Str := ⟨part.item.toStr, part.span⟩

structure LiteCommand where
  parts : List (Spanned Str)
  postWhitespace : Option Span
  deriving DecidableEq, Repr

namespace LiteCommand

def ofCommand (command : Spanned Command) : LiteCommand where
  parts := command.item.parts.map Spanned.toToken
  postWhitespace := command.item.parts.getLast?.bind fun part =>
    if part.span.stop < command.span.stop then some ⟨part.span.stop, command.span.stop⟩ else none

def span (c : LiteCommand) : Option Span :=
  (match c.parts.head?, c.parts.getLast? with
    | some first, some last => Span.new first.span.start last.span.stop
    | _, _ => some ⟨0, 0⟩).bind fun span =>
      match c.postWhitespace with
      | some whitespace => span.untilSpan whitespace
      | none => some span

end LiteCommand

def Command.removeLeadingEnvVars (command : Command) : Command :=
  .new (command.parts.dropWhile fun part => part.item.toStr.count '=' = 1)

def parsedCommands (source : Str) (escapeChar : EscapeChar) : Option (List (Spanned Command)) :=
  (ByteLexer.tokens source escapeChar false).map fun tokens => (Parser.new tokens).parse.1

def allParsedCommands (source : Str) (escapeChar : EscapeChar) : Option (List LiteCommand) :=
  (parsedCommands source escapeChar).map fun commands =>
    commands.map fun command => .ofCommand ⟨command.item.removeLeadingEnvVars, command.span⟩

section Split

def beforeEquals (item : Str) : Str := item.takeWhile (· ≠ '=')

def findEquals (item : Str) : Option ℕ := if '=' ∈ item then some (beforeEquals item).byteLen else none

/-- The position in the text is taken for one in the source. -/
def flagToken (token : Spanned Str) (eqPos : ℕ) : Option (Spanned Str) :=
  (Span.new token.span.start (token.span.start + eqPos)).map (⟨beforeEquals token.item, ·⟩)

def valueToken (token : Spanned Str) (eqPos : ℕ) : Option (Spanned Str) :=
  (Span.new (token.span.start + eqPos + 1) token.span.stop).map
    (⟨token.item.drop ((beforeEquals token.item).length + 1), ·⟩)

def eqSplit (token : Spanned Str) : Option ℕ := if token.item.head? = some '-' then findEquals token.item else none

structure ParsedTokenData (D : Type) where
  token : Spanned Str
  tokenIndex : ℕ
  tokenDescription : Option D

variable {D : Type}

/-- A flag with a value is described in two parts. -/
def describeParts (describe : Spanned Str → Option D) (tokenIndex : ℕ) (token : Spanned Str) :
    Option (List (ParsedTokenData D)) :=
  match eqSplit token with
  | some eqPos =>
    (flagToken token eqPos).bind fun flag =>
      (valueToken token eqPos).map fun value =>
        ⟨flag, tokenIndex, describe flag⟩ ::
          if value.item = [] then [] else [⟨value, tokenIndex, describe value⟩]
  | none => some [⟨token, tokenIndex, describe token⟩]

/-- `describe` is `describe_given_token`, from the buffer and the span of the command. -/
def getTokenDescriptions (describe : Span → Spanned Str → Option D) (commands : List LiteCommand) :
    Option (List (ParsedTokenData D)) :=
  (commands.mapM fun command : LiteCommand => command.span.bind fun span =>
    (command.parts.zipIdx.mapM fun entry => describeParts (describe span) entry.2 entry.1).map List.flatten).map
      List.flatten

/-- What `parse_internal_command` makes of a flag that takes its value from the same token. -/
def selfContainedOption (token : Spanned Str) : Option (Option (Span × Spanned Str)) :=
  match findEquals token.item with
  | some eqPos =>
    (valueToken token eqPos).bind fun value =>
      (Span.new token.span.start (token.span.start + eqPos)).map fun flagNameSpan => some (flagNameSpan, value)
  | none => some none

def splitFlagEqTokenAtCursor (token : Spanned Str) (pos : ℕ) : Option (Spanned Str) :=
  if token.item.head? ≠ some '-' then some token
  else match findEquals token.item with
    | none => some token
    | some eqPos => if pos ≤ token.span.start + eqPos then flagToken token eqPos else valueToken token eqPos

end Split

section Source

variable (source : Str)

mutual

/-- Where the source has the first equals sign of the part itself. -/
def Part.equalsAt : Part → Span → Option ℕ
  | .literal _, span => (span.byteSlice source).bind fun text => (findEquals text).map (span.start + ·)
  | .closedSubshell _, _ | .openSubshell _, _ => none
  | .concatenated parts, _ => partsEqualsAt parts

def partsEqualsAt : List (Spanned Part) → Option ℕ
  | [] => none
  | ⟨part, span⟩ :: parts => (part.equalsAt span).or (partsEqualsAt parts)

end

/-- The words of the commands and their pieces, at every depth. -/
inductive Occurs (commands : List (Spanned Command)) : Spanned Part → Prop
  | word {command : Spanned Command} {part : Spanned Part} (isCommand : command ∈ commands)
    (isPart : part ∈ command.item.parts) : Occurs commands part
  | piece {parts : List (Spanned Part)} {span : Span} {part : Spanned Part}
    (whole : Occurs commands ⟨.concatenated parts, span⟩) (isPiece : part ∈ parts) : Occurs commands part
  | closed {inner : List (Spanned Command)} {span : Span} {command : Spanned Command} {part : Spanned Part}
    (outer : Occurs commands ⟨.closedSubshell inner, span⟩) (isCommand : command ∈ inner)
    (isPart : part ∈ command.item.parts) : Occurs commands part
  | unclosed {inner : List (Spanned Command)} {span : Span} {command : Spanned Command} {part : Spanned Part}
    (outer : Occurs commands ⟨.openSubshell inner, span⟩) (isCommand : command ∈ inner)
    (isPart : part ∈ command.item.parts) : Occurs commands part

/-- A token is split at the equals sign of the source, into spans that stand in it, and by all alike. -/
structure SplitsAtEquals (D : Type) (part : Spanned Part) (flag value : Spanned Str) (equals : ℕ) : Prop where
  isEquals : part.item.equalsAt source part.span = some equals
  flagSpan : flag.span = ⟨part.span.start, equals⟩
  valueSpan : value.span = ⟨equals + 1, part.span.stop⟩
  flagFits : flag.span.Fits source part.span.start part.span.stop
  valueFits : value.span.Fits source part.span.start part.span.stop
  described : ∀ (describe : Spanned Str → Option D) index, describeParts describe index part.toToken =
    some (⟨flag, index, describe flag⟩ :: if value.item = [] then [] else [⟨value, index, describe value⟩])
  contained : selfContainedOption part.toToken = some (some (flag.span, value))
  cursor : ∀ pos, splitFlagEqTokenAtCursor part.toToken pos = some (if pos ≤ equals then flag else value)

variable {source} {lo hi : ℕ} {span : Span}

theorem Chain.forall_mem {α : Type} {P : α → Span → Prop} {items : List (Spanned α)} (chain : Chain source P hi items lo) :
    ∀ item ∈ items, item.span.Fits source lo hi ∧ P item.item item.span := by
  induction chain with
  | nil => nofun
  | cons fits inner rest ih =>
    intro item isItem
    rcases List.mem_cons.mp isItem with rfl | later
    · exact ⟨fits, inner⟩
    · obtain ⟨within, known⟩ := ih item later
      exact ⟨within.mono (Nat.le_trans fits.after fits.order) (Nat.le_refl _), known⟩

def EqualsFits (source : Str) (lo hi equals : ℕ) : Prop :=
  lo ≤ equals ∧ equals + 1 ≤ hi ∧ Str.IsBoundary source equals ∧ Str.IsBoundary source (equals + 1)

theorem equalsFits_slice {text : Str} {start stop pos : ℕ} (sliced : source.byteSlice start stop = some text)
    (found : findEquals text = some pos) : EqualsFits source start stop (start + pos) := by
  unfold findEquals at found
  split at found
  · rename_i member
    cases found
    obtain ⟨before, after, rfl, rfl, rfl⟩ := Str.byteSlice_eq_some_iff.mp sliced
    have split : text = beforeEquals text ++ '=' :: (text.dropWhile (· ≠ '=')).tail := by
      have parts := List.takeWhile_append_dropWhile (p := fun c => decide (c ≠ '=')) (l := text)
      cases rest : text.dropWhile (fun c => decide (c ≠ '=')) with
      | nil =>
        rw [rest, List.append_nil] at parts
        have other := List.mem_takeWhile_imp (parts.symm ▸ member)
        simp at other
      | cons c rest' =>
        have isEquals := List.head?_dropWhile_not (fun c => decide (c ≠ '=')) text
        rw [rest] at isEquals parts
        obtain rfl : c = '=' := by simpa using isEquals
        exact parts.symm
    have one : Str.byteLen ['='] = 1 := by decide
    refine ⟨Nat.le_add_right _ _, ?_, ?_, ?_⟩
    · rw [Nat.add_assoc]
      refine Nat.add_le_add_left ?_ _
      conv_rhs => rw [split, Str.byteLen_append, Str.byteLen_cons]
      have := Char.utf8Size_pos '='
      omega
    · refine ⟨before ++ beforeEquals text, '=' :: (text.dropWhile (· ≠ '=')).tail ++ after, ?_, Str.byteLen_append _ _⟩
      conv_lhs => rw [split]
      simp
    · refine ⟨before ++ beforeEquals text ++ ['='], (text.dropWhile (· ≠ '=')).tail ++ after, ?_, ?_⟩
      · conv_lhs => rw [split]
        simp
      · rw [Str.byteLen_append, Str.byteLen_append, one]
  · cases found

mutual

theorem Part.Tidy.equalsAt_fits {span : Span} {equals : ℕ} : ∀ part : Part, part.Tidy source span →
    part.equalsAt source span = some equals → EqualsFits source span.start span.stop equals
  | .literal _, _, found => by
    obtain ⟨text, sliced, found⟩ := Option.bind_eq_some_iff.mp found
    obtain ⟨pos, isPos, rfl⟩ := Option.map_eq_some_iff.mp found
    exact equalsFits_slice sliced isPos
  | .closedSubshell _, _, found | .openSubshell _, _, found => by cases found
  | .concatenated parts, .concatenated chain, found => partsEqualsAt_fits parts chain found

theorem partsEqualsAt_fits {lo hi equals : ℕ} : ∀ parts : List (Spanned Part), Chain source (Part.Tidy source) hi parts lo →
    partsEqualsAt source parts = some equals → EqualsFits source lo hi equals
  | ⟨part, span⟩ :: parts, .cons fits inner rest, found => by
    rw [partsEqualsAt] at found
    rcases Option.or_eq_some_iff.mp found with here | ⟨-, later⟩
    · obtain ⟨low, high, boundary⟩ := Part.Tidy.equalsAt_fits part inner here
      exact ⟨Nat.le_trans fits.after low, Nat.le_trans high fits.before, boundary⟩
    · obtain ⟨low, high, boundary⟩ := partsEqualsAt_fits parts rest later
      exact ⟨Nat.le_trans (Nat.le_trans fits.after fits.order) low, high, boundary⟩

end

theorem Occurs.fits {commands : List (Spanned Command)} (chain : Chain source (Command.Tidy source) hi commands lo)
    {part : Spanned Part} (occurs : Occurs commands part) :
    ∃ lo hi, part.span.Fits source lo hi ∧ part.item.Tidy source part.span := by
  have word {lo hi : ℕ} {commands : List (Spanned Command)} (chain : Chain source (Command.Tidy source) hi commands lo)
      {command : Spanned Command} {part : Spanned Part} (isCommand : command ∈ commands)
      (isPart : part ∈ command.item.parts) : ∃ lo hi, part.span.Fits source lo hi ∧ part.item.Tidy source part.span := by
    obtain ⟨-, inner⟩ := chain.forall_mem command isCommand
    obtain ⟨⟨parts⟩, span⟩ := command
    obtain ⟨chain'⟩ := inner
    exact ⟨_, _, chain'.forall_mem part isPart⟩
  induction occurs with
  | word isCommand isPart => exact word chain isCommand isPart
  | piece whole isPiece ih =>
    obtain ⟨_, _, -, tidy⟩ := ih
    cases tidy with | concatenated chain' => exact ⟨_, _, chain'.forall_mem _ isPiece⟩
  | closed outer isCommand isPart ih =>
    obtain ⟨_, _, -, tidy⟩ := ih
    cases tidy with | closedSubshell chain' => exact word chain' isCommand isPart
  | unclosed outer isCommand isPart ih =>
    obtain ⟨_, _, -, tidy⟩ := ih
    cases tidy with | openSubshell chain' => exact word chain' isCommand isPart

end Source

end Warp.Completer
