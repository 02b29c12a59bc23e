import Warp.Completer.Lexer

namespace Warp.Completer

mutual

inductive Command
  | new (parts : List (Spanned Part))

inductive Part
  | literal (value : Str)
  | closedSubshell (commands : List (Spanned Command))
  | openSubshell (commands : List (Spanned Command))
  | concatenated (parts : List (Spanned Part))

end

def Command.parts : Command → List (Spanned Part)
  | .new parts => parts

structure ParserInput where
  tokens : List (Spanned Token)
  pos : ℕ
  deriving DecidableEq, Repr

namespace ParserInput

def new (tokens : List (Spanned Token)) : ParserInput := ⟨tokens, 0⟩

def peek (i : ParserInput) : Option Token := i.tokens.head?.map Spanned.item

def peekpeek (i : ParserInput) : Option Token := i.tokens.tail.head?.map Spanned.item

def next (i : ParserInput) : ParserInput :=
  match i.tokens with
  | [] => i
  | t :: tokens => ⟨tokens, t.span.stop⟩

def untilBacktick (i : ParserInput) : ParserInput × ParserInput :=
  let buffer := i.tokens.takeWhile fun t => t.item ≠ .backtick
  let rest := i.tokens.dropWhile fun t => t.item ≠ .backtick
  (⟨buffer, i.pos⟩, ⟨rest, (buffer.getLast?.map fun t => t.span.stop).getD i.pos⟩)

end ParserInput

structure PartBuilder where
  start : ℕ
  buffer : Str
  bufferStart : ℕ
  subParts : List (Spanned Part)

namespace PartBuilder

def new (start : ℕ) : PartBuilder := ⟨start, [], start, []⟩

def addPart (b : PartBuilder) (part : Spanned Part) : PartBuilder :=
  let subParts :=
    if b.buffer = [] then b.subParts
    else b.subParts ++ [⟨.literal b.buffer, ⟨b.bufferStart, part.span.start⟩⟩]
  match part.item with
  | .concatenated inner => ⟨b.start, [], part.span.stop, subParts ++ inner⟩
  | _ => ⟨b.start, [], part.span.stop, subParts ++ [part]⟩

def addRaw (b : PartBuilder) (value : Str) : PartBuilder := { b with buffer := b.buffer ++ value }

def isEmpty (b : PartBuilder) : Bool := b.buffer.isEmpty && b.subParts.isEmpty

def complete (b : PartBuilder) (stop : ℕ) : Spanned Part :=
  let subParts :=
    if b.buffer = [] then b.subParts else b.subParts ++ [⟨.literal b.buffer, ⟨b.bufferStart, stop⟩⟩]
  match subParts with
  | [] => ⟨.literal [], ⟨b.start, stop⟩⟩
  | [part] => part
  | _ => ⟨.concatenated subParts, ⟨b.start, stop⟩⟩

end PartBuilder

structure Parser where
  tokens : ParserInput
  containsRedirection : Bool
  deriving DecidableEq, Repr

namespace Parser

def withTokens (tokens : ParserInput) : Parser := ⟨tokens, false⟩

def new (tokens : List (Spanned Token)) : Parser := withTokens (.new tokens)

def peek (p : Parser) : Option Token := p.tokens.peek

def next (p : Parser) : Parser := { p with tokens := p.tokens.next }

def pos (p : Parser) : ℕ := p.tokens.pos

def span (p : Parser) (start : ℕ) : Span := ⟨start, p.pos⟩

def redirect (p : Parser) : Parser := ⟨p.tokens.next, true⟩

def skipWhitespace (p : Parser) : Parser :=
  { p with tokens := go p.tokens.tokens p.pos }
where
  go : List (Spanned Token) → ℕ → ParserInput
    | [], pos => ⟨[], pos⟩
    | t :: tokens, pos => if t.item.isWhitespace then go tokens t.span.stop else ⟨t :: tokens, pos⟩

/-- What an escape character adds to a word: `first` for the start of a command's first part. -/
def escapedRaw (first : Bool) (escapeChar : Str) : Option Token → Str
  | none => escapeChar
  | some .newline => []
  | some token =>
    if token = .literal ['~'] then escapeChar ++ ['~']
    else if first then escapeChar ++ token.asStr
    else token.asStr

def quotedEscapedRaw (escapeChar : Str) : Option Token → Str
  | none => escapeChar
  | some .newline => []
  | some .dollar => Token.dollar.asStr
  | some .backtick => Token.backtick.asStr
  | some .doubleQuote => Token.doubleQuote.asStr
  | some (.escapeChar value) => value
  | some token => escapeChar ++ token.asStr

def singleQuoted (buffer : Str) : ℕ → Parser → Str × Parser
  | 0, p => (buffer, p)
  | fuel + 1, p =>
    match p.peek with
    | none => (buffer, p)
    | some .singleQuote => (buffer, p.next)
    | some token => singleQuoted (buffer ++ token.asStr) fuel p.next

def parseSingleQuotedPart (p : Parser) : Spanned Part × Parser :=
  let (buffer, after) := singleQuoted [] p.next.tokens.tokens.length p.next
  (⟨.literal buffer, after.span p.pos⟩, after)

mutual

/-- The recursive descent, with a bound on its depth and rounds. -/
def parseCommandList (delimiter : Option Token) : ℕ → Parser → List (Spanned Command) × Parser
  | 0, p => ([], p)
  | fuel + 1, p =>
    let p := p.skipWhitespace
    match p.peek with
    | none => ([], p)
    | some token =>
      if delimiter = some token then ([], p)
      else match token with
      | .openParen =>
        let (nested, p) := parseCommandList (some .closeParen) fuel p.next
        let (commands, p) := parseCommandList delimiter fuel p
        (nested ++ commands, p)
      | .openCurly =>
        let (nested, p) := parseCommandList (some .closeCurly) fuel p.next
        let (commands, p) := parseCommandList delimiter fuel p
        (nested ++ commands, p)
      | .closeParen | .closeCurly => parseCommandList delimiter fuel p.next
      | .redirectInput | .redirectOutput => parseCommandList delimiter fuel p.redirect
      | token =>
        if token.isValidCommandSeparator then parseCommandList delimiter fuel p.next
        else
          let (command, p) := parseCommand fuel p
          let (commands, p) := parseCommandList delimiter fuel p
          (command :: commands, p)

def parseCommand : ℕ → Parser → Spanned Command × Parser
  | 0, p => (⟨.new [], p.span p.pos⟩, p)
  | fuel + 1, p =>
    let (parts, after) := parseParts [] fuel p
    (⟨.new parts, after.span p.pos⟩, after)

def parseParts (parts : List (Spanned Part)) : ℕ → Parser → List (Spanned Part) × Parser
  | 0, p => (parts, p)
  | fuel + 1, p =>
    let p := p.skipWhitespace
    match p.peek with
    | none => (parts, p)
    | some token =>
      if token.isRedirect then parseParts parts fuel p.redirect
      else if token.isCommandTerminator then (parts, p)
      else
        let (part, p) := parsePart parts.isEmpty (.new p.pos) fuel p
        parseParts (parts ++ [part]) fuel p

def parsePart (firstPart : Bool) (builder : PartBuilder) : ℕ → Parser → Spanned Part × Parser
  | 0, p => (builder.complete p.pos, p)
  | fuel + 1, p =>
    match p.peek with
    | none => (builder.complete p.pos, p)
    | some token =>
      if token.isWhitespace then (builder.complete p.pos, p)
      else if token.isRedirect then parsePart firstPart builder fuel p.redirect
      else if token.isCommandTerminator then (builder.complete p.pos, p)
      else match token with
      | .doubleQuote =>
        let (part, p) := parseDoubleQuotedPart (.new p.pos) fuel p.next
        parsePart firstPart (builder.addPart part) fuel p
      | .singleQuote =>
        let (part, p) := parseSingleQuotedPart p
        parsePart firstPart (builder.addPart part) fuel p
      | .backtick =>
        let (part, p) := parseBacktickedSubshell fuel p
        parsePart firstPart (builder.addPart part) fuel p
      | .dollar =>
        if p.tokens.peekpeek = some .openParen then
          let (part, p) := parseDollarSubshell fuel p
          parsePart firstPart (builder.addPart part) fuel p
        else parsePart firstPart (builder.addRaw Token.dollar.asStr) fuel p.next
      | .escapeChar c =>
        let raw := escapedRaw (firstPart && builder.isEmpty) c p.next.peek
        parsePart firstPart (builder.addRaw raw) fuel p.next.next
      | token => parsePart firstPart (builder.addRaw token.asStr) fuel p.next

def parseBacktickedSubshell : ℕ → Parser → Spanned Part × Parser
  | 0, p => (⟨.openSubshell [], p.span p.pos⟩, p)
  | fuel + 1, p =>
    let (buffered, rest) := p.next.tokens.untilBacktick
    let commands := (parseCommandList none fuel (withTokens buffered)).1
    let p' : Parser := { p with tokens := rest }
    match p'.peek with
    | none => (⟨.openSubshell commands, p'.span p.pos⟩, p')
    | some _ => (⟨.closedSubshell commands, p'.next.span p.pos⟩, p'.next)

def parseDollarSubshell : ℕ → Parser → Spanned Part × Parser
  | 0, p => (⟨.openSubshell [], p.span p.pos⟩, p)
  | fuel + 1, p =>
    let (commands, p') := parseCommandList (some .closeParen) fuel p.next.next
    match p'.peek with
    | none => (⟨.openSubshell commands, p'.span p.pos⟩, p')
    | some _ => (⟨.closedSubshell commands, p'.next.span p.pos⟩, p'.next)

/-- The opening quote has been read, the builder starts at it. -/
def parseDoubleQuotedPart (builder : PartBuilder) : ℕ → Parser → Spanned Part × Parser
  | 0, p => (builder.complete p.pos, p)
  | fuel + 1, p =>
    match p.peek with
    | none => (builder.complete p.pos, p)
    | some token =>
      match token with
      | .doubleQuote => (builder.complete p.next.pos, p.next)
      | .escapeChar c =>
        parseDoubleQuotedPart (builder.addRaw (quotedEscapedRaw c p.next.peek)) fuel p.next.next
      | .backtick =>
        let (part, p) := parseBacktickedSubshell fuel p
        parseDoubleQuotedPart (builder.addPart part) fuel p
      | .dollar =>
        if p.tokens.peekpeek = some .openParen then
          let (part, p) := parseDollarSubshell fuel p
          parseDoubleQuotedPart (builder.addPart part) fuel p
        else parseDoubleQuotedPart (builder.addRaw Token.dollar.asStr) fuel p.next
      | token => parseDoubleQuotedPart (builder.addRaw token.asStr) fuel p.next

end

/-- The rounds and calls that reading `n` tokens can take. -/
def fuelFor (n : ℕ) : ℕ := 8 * n + 8

def parse (p : Parser) : List (Spanned Command) × Bool :=
  let (commands, after) := parseCommandList none (fuelFor p.tokens.tokens.length) p
  (commands, after.containsRedirection)

end Parser

section Decompose

variable (source : Str)

def textFrom (first last : Span) : Str := Str.trim ((⟨first.start, last.stop⟩ : Span).slice source)

/-- The text of the parts, the words of a command or the pieces of a concatenation. -/
def totalText {α : Type} (items : List (Spanned α)) : Option Str :=
  match items.head?, items.getLast? with
  | some first, some last => some (textFrom source first.span last.span)
  | _, _ => none

def Part.isLiteral : Part → Bool
  | .literal _ => true
  | _ => false

def ownText (parts : List (Spanned Part)) : List Str :=
  if parts.any fun part => part.item.isLiteral then (totalText source parts).toList else []

mutual

def Command.decompose : Command → List Str
  | .new parts => nestedTexts parts ++ ownText source parts

def nestedTexts : List (Spanned Part) → List Str
  | [] => []
  | ⟨part, _⟩ :: parts => Part.texts part ++ nestedTexts parts

def Part.texts : Part → List Str
  | .literal _ => []
  | .closedSubshell commands => (totalText source commands).toList ++ decomposeAll commands
  | .openSubshell commands => (totalText source commands).toList ++ decomposeAll commands
  | .concatenated parts => (totalText source parts).toList ++ (nestedTexts parts ++ ownText source parts)

def decomposeAll : List (Spanned Command) → List Str
  | [] => []
  | ⟨command, _⟩ :: commands => Command.decompose command ++ decomposeAll commands

end

def decomposeCommand (command : Str) (escapeChar : EscapeChar) : List Str × Bool :=
  let result := (Parser.new (Lexer.new command escapeChar false).tokens).parse
  (decomposeAll command result.1, result.2)

end Decompose

end Warp.Completer
