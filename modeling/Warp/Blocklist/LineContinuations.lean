import Warp.Blocklist.Permissions

namespace Warp.Blocklist

open Completer

variable {command : Str} {escape : EscapeChar}

/-- What a character of a script may stand in. Groups and substitutions are code again. -/
inductive Context
  | code
  | backticks
  | doubleQuotes
  | singleQuotes
  deriving DecidableEq, Repr

/-- The contexts around the next character, the innermost first, once `c` is read in `within` and not escaped. -/
def Context.after (c : Char) : List Context → List Context
  | .singleQuotes :: outer => if c = '\'' then outer else .singleQuotes :: outer
  | .doubleQuotes :: outer =>
    if c = '"' then outer
    else if c = '`' then .backticks :: .doubleQuotes :: outer
    else .doubleQuotes :: outer
  | within =>
    if c = '\'' then .singleQuotes :: within
    else if c = '"' then .doubleQuotes :: within
    else if c = '`' then if within.head? = some .backticks then within.tail else .backticks :: within
    else if c = '(' then .code :: within
    else if c = ')' then if within.head? = some .code then within.tail else within
    else within

/-- The shell's reading of line continuations: outside of single quotes an escape character deletes a line feed behind
it and keeps any other character. -/
def joinContinuations (escape : EscapeChar) : List Context → Str → Str
  | _, [] => []
  | _, [c] => [c]
  | within, c :: d :: rest =>
    if within.head? = some .singleQuotes then c :: joinContinuations escape (Context.after c within) (d :: rest)
    else if escape.isChar c then
      if d = '\n' then joinContinuations escape within rest else c :: d :: joinContinuations escape within rest
    else if c = '$' ∧ d = '(' then c :: d :: joinContinuations escape (.code :: within) rest
    else c :: joinContinuations escape (Context.after c within) (d :: rest)

def shellCommands (command : Str) (escape : EscapeChar) : List Str :=
  (decomposeCommand (joinContinuations escape [] command) escape).1

def ChecksShellCommands (settings : Settings) (command : Str) (escape : EscapeChar) (isReadOnly : Bool)
    (isRisky : Option Bool) : Prop :=
  (canAutoexecuteCommand settings command escape isReadOnly isRisky = .allowed .explicitlyAllowlisted →
    ∀ c ∈ shellCommands command escape, matchesSome settings.allowlist c) ∧
  ∀ c ∈ shellCommands command escape, matchesSome settings.denylist c →
    ¬ (canAutoexecuteCommand settings command escape isReadOnly isRisky).isAllowed

end Warp.Blocklist
