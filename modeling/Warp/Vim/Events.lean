import Warp.Lib.Lines

namespace Warp.Vim

def backspaceChar : Char := '\x08'

inductive Direction
  | backward
  | forward
  deriving DecidableEq, Repr

def Direction.opposite : Direction → Direction
  | backward => forward
  | forward => backward

inductive WordBound
  | start
  | stop
  deriving DecidableEq, Repr

inductive WordType
  | default
  | bigWord
  deriving DecidableEq, Repr

def WordType.ofChar (c : Char) : WordType := if c.isUpper then bigWord else default

structure WordMotion where
  direction : Direction
  bound : WordBound
  wordType : WordType
  deriving DecidableEq, Repr

inductive LineMotion
  | start
  | firstNonWhitespace
  | stop
  deriving DecidableEq, Repr

inductive CharacterMotion
  | up
  | down
  | left
  | right
  | wrappingLeft
  | wrappingRight
  deriving DecidableEq, Repr

inductive FirstNonWhitespaceMotion
  | up
  | down
  | downMinusOne
  deriving DecidableEq, Repr

inductive FindCharDestination
  | atChar
  | beforeChar
  deriving DecidableEq, Repr

structure FindCharMotion where
  direction : Direction
  destination : FindCharDestination
  isRepetition : Bool
  c : Char
  deriving DecidableEq, Repr

def FindCharMotion.withOppositeDirection (m : FindCharMotion) : FindCharMotion :=
  { m with direction := m.direction.opposite }

def FindCharMotion.repetition (m : FindCharMotion) : FindCharMotion := { m with isRepetition := true }

inductive TextObjectInclusion
  | around
  | inner
  deriving DecidableEq, Repr

inductive QuoteType
  | single
  | double
  | backtick
  deriving DecidableEq, Repr

inductive BracketEnd
  | opening
  | closing
  deriving DecidableEq, Repr

inductive BracketType
  | parenthesis
  | curlyBrace
  | squareBracket
  deriving DecidableEq, Repr

structure BracketChar where
  bracketEnd : BracketEnd
  kind : BracketType
  deriving DecidableEq, Repr

inductive TextObjectType
  | word (type : WordType)
  | paragraph
  | quote (type : QuoteType)
  | block (type : BracketType)
  deriving DecidableEq, Repr

structure VimTextObject where
  inclusion : TextObjectInclusion
  objectType : TextObjectType
  deriving DecidableEq, Repr

inductive MotionType
  | charwise
  | linewise
  deriving DecidableEq, Repr

inductive VimMode
  | normal
  | insert
  | visual (motionType : MotionType)
  | replace
  deriving DecidableEq, Repr

inductive VimOperator
  | delete
  | change
  | yank
  | toggleCase
  | uppercase
  | lowercase
  | toggleComment
  deriving DecidableEq, Repr

inductive PendingOperand
  | g
  | textObject (inclusion : TextObjectInclusion)
  | findChar (direction : Direction) (destination : FindCharDestination)
  | squareBracket (direction : Direction)
  deriving DecidableEq, Repr

inductive PendingAction
  | operation (operator : VimOperator) (pendingOperand : Option PendingOperand)
  | g
  | z
  | findChar (direction : Direction) (destination : FindCharDestination)
  | squareBracket (direction : Direction)
  | setRegister
  deriving DecidableEq, Repr

inductive VimMotion
  | character (motion : CharacterMotion)
  | word (motion : WordMotion)
  | line (motion : LineMotion)
  | firstNonWhitespace (motion : FirstNonWhitespaceMotion)
  | findChar (motion : FindCharMotion)
  | jumpToFirstLine
  | jumpToLastLine
  | jumpToLine (line : ℕ)
  | jumpToMatchingBracket
  | jumpToUnmatchedBracket (bracket : BracketChar)
  | paragraph (direction : Direction)
  deriving DecidableEq, Repr

inductive VimOperand
  | motion (motionType : MotionType) (motion : VimMotion)
  | textObject (object : VimTextObject)
  | line
  deriving DecidableEq, Repr

inductive InsertPosition
  | atCursor
  | afterCursor
  | lineFirstNonWhitespace
  | lineEnd
  | lineAbove
  | lineBelow
  deriving DecidableEq, Repr

structure ModeTransition where
  mode : VimMode
  position : InsertPosition
  deriving DecidableEq, Repr

def VimMode.transition (mode : VimMode) : ModeTransition := ⟨mode, .atCursor⟩

inductive VimEventType
  | insertChar (c : Char)
  | navigate (motion : VimMotion)
  | replaceChar (c : Option Char)
  | toggleCase
  | search (direction : Direction)
  | cycleSearch (direction : Direction)
  | searchWordAtCursor (direction : Direction)
  | keywordPrg
  | exCommand
  | paste (direction : Direction) (registerName : Char)
  | joinLine
  | changeMode (new : ModeTransition) (old : VimMode)
  | undo
  | backspace
  | deleteForward
  | escape
  | operation (operator : VimOperator) (operand : VimOperand) (registerName : Char) (replacementText : Str)
  | insertText (text : Str) (position : InsertPosition)
  | visualOperator (operator : VimOperator) (motionType : MotionType) (registerName : Char)
  | visualPaste (motionType : MotionType) (readRegisterName writeRegisterName : Char)
  | visualTextObject (object : VimTextObject)
  | gotoDefinition
  | findReferences
  | showHover
  | centerCursorVertically
  | scrollHalfPageDown
  | scrollHalfPageUp
  deriving DecidableEq, Repr

structure VimEvent where
  eventType : VimEventType
  count : ℕ
  deriving DecidableEq, Repr

def VimEvent.once (eventType : VimEventType) : VimEvent := ⟨eventType, 1⟩

def VimEventType.forDotRepeat : VimEventType → Option VimEventType
  | replaceChar c => some (replaceChar c)
  | toggleCase => some toggleCase
  | paste direction register => some (paste direction register)
  | insertText text position => some (insertText text position)
  | joinLine => some joinLine
  | deleteForward => some deleteForward
  | operation operator operand register text =>
    if operator = .change ∨ operator = .delete then some (operation operator operand register text) else none
  | changeMode new _ =>
    match new.mode with
    | .insert => some (insertText [] new.position)
    | .replace => some (replaceChar none)
    | _ => none
  | _ => none

/-! The conversions of characters. `none` stands for the panic of a character that is not accepted. -/

def PendingOperand.ofChar (c : Char) : Option PendingOperand :=
  if c = 'g' then some .g
  else if c = 'i' then some (.textObject .inner)
  else if c = 'a' then some (.textObject .around)
  else if c = 'f' then some (.findChar .forward .atChar)
  else if c = 't' then some (.findChar .forward .beforeChar)
  else if c = 'F' then some (.findChar .backward .atChar)
  else if c = 'T' then some (.findChar .backward .beforeChar)
  else if c = '[' then some (.squareBracket .backward)
  else if c = ']' then some (.squareBracket .forward)
  else none

def PendingAction.ofChar (c : Char) : Option PendingAction :=
  if c = 'd' then some (.operation .delete none)
  else if c = 'c' then some (.operation .change none)
  else if c = 'y' then some (.operation .yank none)
  else if c = 'g' then some .g
  else if c = 'z' then some .z
  else if c = 'f' then some (.findChar .forward .atChar)
  else if c = 't' then some (.findChar .forward .beforeChar)
  else if c = 'F' then some (.findChar .backward .atChar)
  else if c = 'T' then some (.findChar .backward .beforeChar)
  else if c = '[' then some (.squareBracket .backward)
  else if c = ']' then some (.squareBracket .forward)
  else if c = '"' then some .setRegister
  else none

def QuoteType.ofChar (c : Char) : Option QuoteType :=
  if c = '\'' then some .single else if c = '"' then some .double else if c = '`' then some .backtick else none

def BracketType.ofChar (c : Char) : Option BracketType :=
  if ['(', ')', 'b'].contains c then some .parenthesis
  else if ['[', ']'].contains c then some .squareBracket
  else if ['\x7b', '\x7d', 'B'].contains c then some .curlyBrace
  else none

def TextObjectType.ofChar (c : Char) : Option TextObjectType :=
  if ['w', 'W'].contains c then some (.word (.ofChar c))
  else if c = 'p' then some .paragraph
  else if ['\'', '"', '`'].contains c then (QuoteType.ofChar c).map .quote
  else if ['b', 'B', '(', ')', '[', ']', '\x7b', '\x7d'].contains c then (BracketType.ofChar c).map .block
  else none

def VimOperator.ofChar (c : Char) : Option VimOperator :=
  if ['d', 'D', 'x', 'X'].contains c then some .delete
  else if ['c', 'C', 's', 'S'].contains c then some .change
  else if ['y', 'Y'].contains c then some .yank
  else if c = '~' then some .toggleCase
  else if c = 'u' then some .lowercase
  else if c = 'U' then some .uppercase
  else none

def wordMotionForCharacter (c : Char) : Option WordMotion :=
  if ['w', 'W'].contains c then some ⟨.forward, .start, .ofChar c⟩
  else if ['b', 'B'].contains c then some ⟨.backward, .start, .ofChar c⟩
  else if ['e', 'E'].contains c then some ⟨.forward, .stop, .ofChar c⟩
  else none

def closedWordMotionForCharacter (c : Char) : Option WordMotion :=
  if ['w', 'e', 'W', 'E'].contains c then some ⟨.forward, .stop, .ofChar c⟩
  else if ['b', 'B'].contains c then some ⟨.backward, .start, .ofChar c⟩
  else none

def lineMotionForCharacter (c : Char) : Option LineMotion :=
  if c = '0' then some .start else if c = '^' then some .firstNonWhitespace else if c = '$' then some .stop else none

def charMotionForCharacter (c : Char) : Option CharacterMotion :=
  if c = 'h' then some .left
  else if c = 'l' then some .right
  else if c = 'k' then some .up
  else if c = 'j' then some .down
  else if c = ' ' then some .wrappingRight
  else if c = backspaceChar then some .wrappingLeft
  else none

def firstNonwhitespaceMotionForChar (c : Char) : Option FirstNonWhitespaceMotion :=
  if c = '+' then some .down else if c = '-' then some .up else if c = '_' then some .downMinusOne else none

def blackHoleRegister : Char := '_'

def validRegisterName (c : Char) : Bool := ('a' ≤ c && c ≤ 'z') || ('A' ≤ c && c ≤ 'Z') || ['+', '*', '"'].contains c

end Warp.Vim
