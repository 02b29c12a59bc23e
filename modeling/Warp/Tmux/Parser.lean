import Warp.Ansi.Color
import Warp.Lib.Transducer

namespace Warp.Tmux

open Ansi (Bytes ascii)
open Checked (add mul)

inductive TmuxMessage where
  | commandOutput (outputLines : Except (List Bytes) (List Bytes))
  | windowClose (windowId : ℕ)
  | exit
  | unknown (tag rest : Bytes)
  | parseError (message : String) (byte : UInt8)

inductive Call where
  | paneOutput (pane : ℕ) (byte : UInt8)
  | tmuxControlModeMessage (message : TmuxMessage)

structure EscapeSequence where
  char : UInt8
  remainingDigits : ℕ
  unfinished : 0 < remainingDigits

/-- The tag holds 23 bytes at most, the length of the longest tag there is. -/
inductive ParserState where
  | beginningOfLine
  | readingTag (tag : Bytes)
  | tagExit
  | tagUnknown (tag args : Bytes)
  | tagBegin
  | readingCommandOutput (currentLine : Bytes) (lines : List Bytes)
  | tagOutput (maybePane : Option ℕ)
  | readingPaneOutput (pane : ℕ) (maybeEscapeSequence : Option EscapeSequence)
  | tagWindowClose (maybeWindow : Option ℕ)
  | error

def lineFeed : UInt8 := 10
def carriageReturn : UInt8 := 13
def space : UInt8 := 32
def percent : UInt8 := 37
def at_ : UInt8 := 64
def backslash : UInt8 := 92

def isAsciiDigit (byte : UInt8) : Bool := 48 ≤ byte ∧ byte ≤ 57

def maxTagLength : ℕ := 23

def pushDigit (number : ℕ) (byte : UInt8) : Option ℕ := do
  let tens ← mul 32 number 10
  add 32 tens (byte - 48).toNat

namespace ParserState

/-- A step of the parser, which has no result when a number leaves its type. -/
abbrev Outcome := Option (ParserState × List Call)

def reportParseError (next : ParserState) (message : String) (byte : UInt8) : Outcome :=
  some (next, [.tmuxControlModeMessage (.parseError message byte)])

def advanceBeginningOfLine (byte : UInt8) : Outcome :=
  if byte ≠ percent then reportParseError .error "Received non-% character at the beginning of a line" byte
  else some (.readingTag [], [])

/-- Only debug builds care about the contents of unknown tags. -/
def ofTag (debugAssertions : Bool) (tag : Bytes) : ParserState :=
  if tag = ascii "begin" then .tagBegin
  else if tag = ascii "exit" then .tagExit
  else if tag = ascii "output" then .tagOutput none
  else if tag = ascii "window-close" ∨ tag = ascii "unlinked-window-close" then .tagWindowClose none
  else .tagUnknown (if debugAssertions then tag else []) []

def advanceTagExit (byte : UInt8) : Outcome :=
  if byte ≠ lineFeed then reportParseError .error "Extraneous byte after %exit" byte
  else some (.beginningOfLine, [.tmuxControlModeMessage .exit])

def advanceTagUnknown (debugAssertions : Bool) (tag args : Bytes) (byte : UInt8) : Outcome :=
  if byte = lineFeed then
    some (.beginningOfLine, if debugAssertions then [.tmuxControlModeMessage (.unknown tag args)] else [])
  else some (.tagUnknown tag (if debugAssertions then args ++ [byte] else args), [])

def advanceTagBegin (byte : UInt8) : Outcome :=
  some (if byte = lineFeed then .readingCommandOutput [] [] else .tagBegin, [])

def advanceReadingCommandOutput (currentLine : Bytes) (lines : List Bytes) (byte : UInt8) : Outcome :=
  if byte = lineFeed then
    if ascii "%end" <+: currentLine then some (.beginningOfLine, [.tmuxControlModeMessage (.commandOutput (.ok lines))])
    else if ascii "%error" <+: currentLine then
      some (.beginningOfLine, [.tmuxControlModeMessage (.commandOutput (.error lines))])
    else some (.readingCommandOutput [] (lines ++ [currentLine]), [])
  else some (.readingCommandOutput (currentLine ++ [byte]) lines, [])

def advanceTagOutput (maybePane : Option ℕ) (byte : UInt8) : Outcome :=
  match maybePane with
  | some pane =>
    if isAsciiDigit byte then do
      let pane ← pushDigit pane byte
      some (.tagOutput (some pane), [])
    else if byte = space then some (.readingPaneOutput pane none, [])
    else reportParseError .error "Non-digit character in %output pane number" byte
  | none =>
    if byte = percent then some (.tagOutput (some 0), [])
    else if byte = space then some (.tagOutput none, [])
    else reportParseError (.tagOutput none) "Unexpected character after %output" byte

/-- The digits of an escape sequence go up to eight here. -/
def advanceReadingPaneOutput (pane : ℕ) (maybeEscapeSequence : Option EscapeSequence) (byte : UInt8) : Outcome :=
  match maybeEscapeSequence with
  | some escapeSequence =>
    if 48 ≤ byte ∧ byte ≤ 56 then
      let remainingDigits := escapeSequence.remainingDigits - 1
      let octalDigit := byte - 48
      let char := escapeSequence.char ||| (octalDigit <<< (.ofNat (remainingDigits * 3)))
      some (if more : 0 < remainingDigits then (.readingPaneOutput pane (some ⟨char, remainingDigits, more⟩), [])
        else (.readingPaneOutput pane none, [.paneOutput pane char]))
    else reportParseError .error "Non-octal digit found in output escape sequence" byte
  | none =>
    if byte = lineFeed then some (.beginningOfLine, [])
    else if byte = backslash then some (.readingPaneOutput pane (some ⟨0, 3, by decide⟩), [])
    else if byte < 32 then reportParseError .error "Unescaped character < ASCII 32 found in output" byte
    else some (.readingPaneOutput pane none, [.paneOutput pane byte])

def advanceTagWindowClose (maybeWindow : Option ℕ) (byte : UInt8) : Outcome :=
  match maybeWindow with
  | some window =>
    if isAsciiDigit byte then do
      let window ← pushDigit window byte
      some (.tagWindowClose (some window), [])
    else if byte = lineFeed then some (.beginningOfLine, [.tmuxControlModeMessage (.windowClose window)])
    else reportParseError .error "Non-digit character in %window-close window number" byte
  | none =>
    if byte = at_ then some (.tagWindowClose (some 0), [])
    else if byte = space then some (.tagWindowClose none, [])
    else reportParseError (.tagWindowClose none) "Unexpected character after %window-close" byte

/-- What every state but the one that reads a tag does. -/
def advanceUntagged (debugAssertions : Bool) (self : ParserState) (byte : UInt8) : Outcome :=
  match self with
  | .beginningOfLine => advanceBeginningOfLine byte
  | .readingTag tag => some (.readingTag tag, [])
  | .tagExit => advanceTagExit byte
  | .tagUnknown tag args => advanceTagUnknown debugAssertions tag args byte
  | .tagBegin => advanceTagBegin byte
  | .readingCommandOutput currentLine lines => advanceReadingCommandOutput currentLine lines byte
  | .tagOutput maybePane => advanceTagOutput maybePane byte
  | .readingPaneOutput pane maybeEscapeSequence => advanceReadingPaneOutput pane maybeEscapeSequence byte
  | .tagWindowClose maybeWindow => advanceTagWindowClose maybeWindow byte
  | .error => some (if byte = lineFeed then .beginningOfLine else .error, [])

/-- The byte that ends a tag is the first byte of the state that the tag leads to. -/
def advance (debugAssertions : Bool) (self : ParserState) (byte : UInt8) : Outcome :=
  if byte = carriageReturn then some (self, [])
  else
    match self with
    | .readingTag tag =>
      if byte = space ∨ byte = lineFeed then (ofTag debugAssertions tag).advanceUntagged debugAssertions byte
      else some (.readingTag (if tag.length < maxTagLength then tag ++ [byte] else tag), [])
    | self => self.advanceUntagged debugAssertions byte

abbrev parse (debugAssertions : Bool) (self : ParserState) (bytes : Bytes) : Outcome :=
  Transducer.feed (advance debugAssertions) self bytes

end ParserState

end Warp.Tmux
