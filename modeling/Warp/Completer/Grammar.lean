import Warp.Completer.Parser

namespace Warp.Completer

inductive Bracket
  | paren
  | curly
  deriving DecidableEq, Repr

def Bracket.opening : Bracket → Token
  | .paren => .openParen
  | .curly => .openCurly

def Bracket.closing : Bracket → Token
  | .paren => .closeParen
  | .curly => .closeCurly

mutual

/-- The shell fragment. A script is a sequence of blanks, separators, groups and simple commands. -/
inductive Script
  | nil
  | blank (text : Str) (rest : Script)
  | separator (token : Token) (rest : Script)
  | group (bracket : Bracket) (body rest : Script)
  | command (words : Words) (rest : Script)

inductive Words
  | last (word : Word)
  | cons (word : Word) (blank : Str) (rest : Words)

inductive Word
  | last (piece : Piece)
  | cons (piece : Piece) (rest : Word)

inductive Piece
  | raw (token : Token)
  | escaped (escapeChar : Str) (token : Token)
  | single (tokens : List Token)
  | double (quoted : Quoted)
  | substitution (substitution : Substitution)

inductive Quoted
  | nil
  | raw (token : Token) (rest : Quoted)
  | escaped (escapeChar : Str) (token : Token) (rest : Quoted)
  | substitution (substitution : Substitution) (rest : Quoted)

inductive Substitution
  | dollar (body : Script)
  | backticks (body : Script)

end

mutual

def Script.tokens : Script → List Token
  | .nil => []
  | .blank text rest => .whitespace text :: rest.tokens
  | .separator token rest => token :: rest.tokens
  | .group bracket body rest => bracket.opening :: (body.tokens ++ bracket.closing :: rest.tokens)
  | .command words rest => words.tokens ++ rest.tokens

def Words.tokens : Words → List Token
  | .last word => word.tokens
  | .cons word blank rest => word.tokens ++ .whitespace blank :: rest.tokens

def Word.tokens : Word → List Token
  | .last piece => piece.tokens
  | .cons piece rest => piece.tokens ++ rest.tokens

def Piece.tokens : Piece → List Token
  | .raw token => [token]
  | .escaped c token => [.escapeChar c, token]
  | .single tokens => .singleQuote :: (tokens ++ [.singleQuote])
  | .double quoted => .doubleQuote :: quoted.tokens
  | .substitution s => s.tokens

def Quoted.tokens : Quoted → List Token
  | .nil => [.doubleQuote]
  | .raw token rest => token :: rest.tokens
  | .escaped c token rest => .escapeChar c :: token :: rest.tokens
  | .substitution s rest => s.tokens ++ rest.tokens

def Substitution.tokens : Substitution → List Token
  | .dollar body => .dollar :: .openParen :: (body.tokens ++ [.closeParen])
  | .backticks body => .backtick :: (body.tokens ++ [.backtick])

end

def Script.text (s : Script) : Str := Token.text s.tokens

def Words.text (w : Words) : Str := Token.text w.tokens

def Script.EndsCommand : Script → Prop
  | .nil => True
  | .blank _ rest => rest.EndsCommand
  | .separator _ _ => True
  | .group _ _ _ => False
  | .command _ _ => False

mutual

/-- The side conditions of the fragment's rules. A line continuation is no escape. -/
def Script.Grammatical : Script → Prop
  | .nil => True
  | .blank _ rest => rest.Grammatical
  | .separator token rest => token.isValidCommandSeparator ∧ rest.Grammatical
  | .group _ body rest => body.Grammatical ∧ rest.Grammatical
  | .command words rest => words.Grammatical ∧ rest.EndsCommand ∧ rest.Grammatical

def Words.Grammatical : Words → Prop
  | .last word => word.Grammatical
  | .cons word _ rest => word.Grammatical ∧ rest.Grammatical

def Word.Grammatical : Word → Prop
  | .last piece => piece.Grammatical
  | .cons piece rest => piece.Grammatical ∧ rest.Grammatical

def Piece.Grammatical : Piece → Prop
  | .raw token => (∃ value, value ≠ [] ∧ token = .literal value) ∨ token = .dollar
  | .escaped _ token => token ≠ .newline ∧ token.asStr ≠ []
  | .single tokens => Token.singleQuote ∉ tokens
  | .double quoted => quoted.Grammatical
  | .substitution s => s.Grammatical

def Quoted.Grammatical : Quoted → Prop
  | .nil => True
  | .raw token rest =>
    token ≠ .doubleQuote ∧ token ≠ .backtick ∧ (∀ c, token ≠ .escapeChar c) ∧ token.asStr ≠ [] ∧
      (token = .dollar → rest.tokens.head? ≠ some .openParen) ∧ rest.Grammatical
  | .escaped _ token rest => token ≠ .newline ∧ token.asStr ≠ [] ∧ rest.Grammatical
  | .substitution s rest => s.Grammatical ∧ rest.Grammatical

def Substitution.Grammatical : Substitution → Prop
  | .dollar body => body.Grammatical
  | .backticks body => body.Grammatical

end

mutual

def Script.commands : Script → List Words
  | .nil => []
  | .blank _ rest => rest.commands
  | .separator _ rest => rest.commands
  | .group _ body rest => body.commands ++ rest.commands
  | .command words rest => words :: (words.commands ++ rest.commands)

def Words.commands : Words → List Words
  | .last word => word.commands
  | .cons word _ rest => word.commands ++ rest.commands

def Word.commands : Word → List Words
  | .last piece => piece.commands
  | .cons piece rest => piece.commands ++ rest.commands

def Piece.commands : Piece → List Words
  | .raw _ => []
  | .escaped _ _ => []
  | .single _ => []
  | .double quoted => quoted.commands
  | .substitution s => s.commands

def Quoted.commands : Quoted → List Words
  | .nil => []
  | .raw _ rest => rest.commands
  | .escaped _ _ rest => rest.commands
  | .substitution s rest => s.commands ++ rest.commands

def Substitution.commands : Substitution → List Words
  | .dollar body => body.commands
  | .backticks body => body.commands

end

def Words.words : Words → List Word
  | .last word => [word]
  | .cons word _ rest => word :: rest.words

def Quoted.IsLiteral : Quoted → Prop
  | .nil => True
  | .raw _ rest => rest.IsLiteral
  | .escaped _ _ rest => rest.IsLiteral
  | .substitution _ _ => False

def Piece.IsLiteral : Piece → Prop
  | .double quoted => quoted.IsLiteral
  | .substitution _ => False
  | _ => True

def Word.IsLiteral : Word → Prop
  | .last piece => piece.IsLiteral
  | .cons piece rest => piece.IsLiteral ∧ rest.IsLiteral

def Words.HasLiteralWord (w : Words) : Prop := ∃ word ∈ w.words, word.IsLiteral

/-- What the parts of a word add up to: nothing, a double quote, raw text, one quoted literal, one substitution, a double
quotation of one substitution and nothing else, or several parts. -/
inductive Shape
  | empty
  | opened
  | run
  | quoted
  | substitution
  | bare
  | mixed
  deriving DecidableEq, Repr

namespace Shape

def addRaw : Shape → Shape
  | empty | opened | run => run
  | _ => mixed

def addPart (before part : Shape) : Shape :=
  match before with
  | empty | opened => part
  | _ => mixed

def close : Shape → Shape
  | empty | opened | run => quoted
  | shape => shape

end Shape

def Quoted.shape (before : Shape) : Quoted → Shape
  | .nil => before.close
  | .raw _ rest => rest.shape before.addRaw
  | .escaped _ _ rest => rest.shape before.addRaw
  | .substitution _ rest => rest.shape (before.addPart .bare)

def Piece.shape (before : Shape) : Piece → Shape
  | .raw _ => before.addRaw
  | .escaped _ _ => before.addRaw
  | .single _ => before.addPart .quoted
  | .double quoted => before.addPart (quoted.shape .opened)
  | .substitution _ => before.addPart .substitution

def Word.shapeAfter (before : Shape) : Word → Shape
  | .last piece => piece.shape before
  | .cons piece rest => rest.shapeAfter (piece.shape before)

def Word.shape (w : Word) : Shape := w.shapeAfter .empty

def Word.IsOneLiteral (w : Word) : Prop := w.shape = .run ∨ w.shape = .quoted

def Words.first : Words → Word
  | .last word => word
  | .cons word _ _ => word

def Words.final : Words → Word
  | .last word => word
  | .cons _ _ rest => rest.final

/-- A command that the decomposition returns whole. -/
structure Words.Exposed (w : Words) : Prop where
  literal : ∃ word ∈ w.words, word.IsOneLiteral
  first : w.first.shape ≠ .bare
  final : w.final.shape ≠ .bare

/-- The delimiters of the lists still open behind a script, the innermost first, as the parser sees them: a closing
bracket ends every list at the top that waits for it. There are none when the outermost list has ended, too. -/
def Script.waiting : Script → List (Option Bracket) → Option (List (Option Bracket))
  | .nil, lists => some lists
  | .blank _ rest, lists => rest.waiting lists
  | .separator _ rest, lists => rest.waiting lists
  | .command _ rest, lists => rest.waiting lists
  | .group bracket body rest, lists =>
    match body.waiting (some bracket :: lists) with
    | none => none
    | some inner =>
      if inner.dropWhile (fun list => list = some bracket) = [] then none
      else rest.waiting (inner.dropWhile fun list => list = some bracket)

mutual

/-- No substitution ends before its own closing token. -/
def Script.ClosesInTime : Script → Prop
  | .nil => True
  | .blank _ rest => rest.ClosesInTime
  | .separator _ rest => rest.ClosesInTime
  | .group _ body rest => body.ClosesInTime ∧ rest.ClosesInTime
  | .command words rest => words.ClosesInTime ∧ rest.ClosesInTime

def Words.ClosesInTime : Words → Prop
  | .last word => word.ClosesInTime
  | .cons word _ rest => word.ClosesInTime ∧ rest.ClosesInTime

def Word.ClosesInTime : Word → Prop
  | .last piece => piece.ClosesInTime
  | .cons piece rest => piece.ClosesInTime ∧ rest.ClosesInTime

def Piece.ClosesInTime : Piece → Prop
  | .raw _ => True
  | .escaped _ _ => True
  | .single _ => True
  | .double quoted => quoted.ClosesInTime
  | .substitution s => s.ClosesInTime

def Quoted.ClosesInTime : Quoted → Prop
  | .nil => True
  | .raw _ rest => rest.ClosesInTime
  | .escaped _ _ rest => rest.ClosesInTime
  | .substitution s rest => s.ClosesInTime ∧ rest.ClosesInTime

def Substitution.ClosesInTime : Substitution → Prop
  | .dollar body => (body.waiting [some .paren]).isSome ∧ body.ClosesInTime
  | .backticks body => Token.backtick ∉ body.tokens ∧ body.ClosesInTime

end

end Warp.Completer
