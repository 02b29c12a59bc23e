import Warp.Completer.Token

namespace Warp.Completer

inductive Classified
  | token (token : Spanned Token)
  | raw (chr : Spanned Char)
  | escaped (escapeChar : Spanned Token) (next : Option (Spanned Token))
  deriving DecidableEq, Repr

/-- The lexer's source from its position on. The character that was classified but not yielded yet is the queue. -/
structure Lexer where
  rest : Str
  escapeChar : EscapeChar
  pos : ℕ
  parseQuotesAsLiterals : Bool
  deriving DecidableEq, Repr

namespace Lexer

def new (source : Str) (escapeChar : EscapeChar) (parseQuotesAsLiterals : Bool) : Lexer :=
  ⟨source, escapeChar, 0, parseQuotesAsLiterals⟩

def advance (l : Lexer) (n : ℕ) : Lexer := { l with rest := l.rest.drop n, pos := l.pos + n }

def single (quotesAsLiterals : Bool) : Char → Option Token
  | ';' => some .semicolon
  | '\n' => some .newline
  | '(' => some .openParen
  | ')' => some .closeParen
  | '\x7b' => some .openCurly
  | '\x7d' => some .closeCurly
  | '$' => some .dollar
  | '\'' => if quotesAsLiterals then none else some .singleQuote
  | '"' => if quotesAsLiterals then none else some .doubleQuote
  | '<' => some .redirectInput
  | '>' => some .redirectOutput
  | _ => none

def whitespaceLength (rest : Str) : ℕ := (rest.takeWhile fun c => Str.isWhitespace c && c ≠ '\n').length

def oneToken (escape : EscapeChar) (quotesAsLiterals : Bool) (c : Char) : Token :=
  if c = '|' then .pipe
  else if c = '&' then .ampersand
  else match single quotesAsLiterals c with
    | some token => token
    | none =>
      if escape.isChar c then .escapeChar [c]
      else if c = '`' then .backtick
      else if Str.isWhitespace c then .whitespace [c]
      else .literal [c]

/-- The doubled operators take the whole run of their character, though their span has two of it: the second character
is read as a token of its own. -/
def classifyNext (l : Lexer) : Option (Classified × Lexer) :=
  match l.rest with
  | [] => none
  | c :: rest =>
    let span : Span := ⟨l.pos, l.pos + 1⟩
    let doubled (both one : Token) : Classified × Lexer :=
      if rest.head? = some c then
        (.token ⟨both, ⟨l.pos, l.pos + 2⟩⟩, l.advance ((c :: rest).takeWhile fun d => d = c).length)
      else (.token ⟨one, span⟩, l.advance 1)
    if c = '|' then some (doubled .logicalOr .pipe)
    else if c = '&' then some (doubled .logicalAnd .ampersand)
    else match single l.parseQuotesAsLiterals c with
      | some token => some (.token ⟨token, span⟩, l.advance 1)
      | none =>
        if l.escapeChar.isChar c then
          let next := rest.head?.map fun d =>
            (⟨oneToken l.escapeChar l.parseQuotesAsLiterals d, ⟨l.pos + 1, l.pos + 2⟩⟩ : Spanned Token)
          some (.escaped ⟨.escapeChar [c], span⟩ next, l.advance (1 + (rest.take 1).length))
        else if c = '`' then some (.token ⟨.backtick, span⟩, l.advance 1)
        else if Str.isWhitespace c then
          let length := 1 + whitespaceLength rest
          some (.token ⟨.whitespace ((c :: rest).take length), ⟨l.pos, l.pos + length⟩⟩, l.advance length)
        else some (.raw ⟨c, span⟩, l.advance 1)

def classified : ℕ → Lexer → List Classified
  | 0, _ => []
  | fuel + 1, l =>
    match l.classifyNext with
    | none => []
    | some (c, l) => c :: classified fuel l

/-- The tokens the iterator yields: a run of raw characters is a literal, and an escaped character a token by itself. -/
def yields : List Classified → List (Spanned Token)
  | [] => []
  | .token t :: rest => t :: yields rest
  | .escaped e next :: rest => e :: (next.toList ++ yields rest)
  | .raw c :: rest =>
    match rest, yields rest with
    | .raw _ :: _, ⟨.literal value, span⟩ :: tokens => ⟨.literal (c.item :: value), c.span.till span⟩ :: tokens
    | _, tokens => ⟨.literal [c.item], c.span⟩ :: tokens

/-- The tokens of a source. Each classification takes at least a character. -/
def tokens (l : Lexer) : List (Spanned Token) := yields (classified l.rest.length l)

end Lexer

end Warp.Completer
