import Warp.Lib.Lines

namespace Warp.Completer

/-- The positions of a piece of the source, counted in characters. -/
structure Span where
  start : ℕ
  stop : ℕ
  deriving DecidableEq, Repr

namespace Span

def till (s t : Span) : Span := ⟨s.start, t.stop⟩

def slice (s : Span) (source : Str) : Str := (source.drop s.start).take (s.stop - s.start)

end Span

structure Spanned (α : Type) where
  item : α
  span : Span
  deriving DecidableEq, Repr

inductive EscapeChar
  | backslash
  | backtick
  deriving DecidableEq, Repr

def EscapeChar.asChar : EscapeChar → Char
  | .backslash => '\\'
  | .backtick => '`'

def EscapeChar.isChar (escape : EscapeChar) (c : Char) : Bool := c = escape.asChar

inductive Token
  | literal (value : Str)
  /-- Whitespace other than a line feed. -/
  | whitespace (value : Str)
  | pipe
  | logicalOr
  | ampersand
  | logicalAnd
  | semicolon
  | newline
  | backtick
  | openParen
  | closeParen
  | openCurly
  | closeCurly
  | dollar
  | singleQuote
  | doubleQuote
  | escapeChar (value : Str)
  | redirectInput
  | redirectOutput
  deriving DecidableEq, Repr

namespace Token

def asStr : Token → Str
  | literal value | whitespace value | escapeChar value => value
  | pipe => ['|']
  | logicalOr => ['|', '|']
  | ampersand => ['&']
  | logicalAnd => ['&', '&']
  | semicolon => [';']
  | newline => ['\n']
  | backtick => ['`']
  | openParen => ['(']
  | closeParen => [')']
  | openCurly => ['\x7b']
  | closeCurly => ['\x7d']
  | dollar => ['$']
  | singleQuote => ['\'']
  | doubleQuote => ['"']
  | redirectInput => ['<']
  | redirectOutput => ['>']

def isWhitespace : Token → Bool
  | whitespace _ => true
  | _ => false

def isRedirect : Token → Bool
  | redirectInput | redirectOutput => true
  | _ => false

def isValidCommandSeparator : Token → Bool
  | pipe | logicalOr | ampersand | logicalAnd | semicolon | newline => true
  | _ => false

def isCommandTerminator (token : Token) : Bool :=
  token.isValidCommandSeparator ||
    match token with
    | openParen | closeParen | openCurly | closeCurly => true
    | _ => false

def text (tokens : List Token) : Str := tokens.flatMap asStr

@[simp] theorem text_nil : text [] = [] := rfl

@[simp] theorem text_cons (t : Token) (tokens : List Token) : text (t :: tokens) = t.asStr ++ text tokens := rfl

@[simp] theorem text_append (tokens more : List Token) : text (tokens ++ more) = text tokens ++ text more :=
  List.flatMap_append

end Token

end Warp.Completer
