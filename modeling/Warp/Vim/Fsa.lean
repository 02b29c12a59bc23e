import Warp.Vim.Events

namespace Warp.Vim

structure VimFSA where
  mode : VimMode
  showcmd : Str
  pendingAction : Option PendingAction
  pendingActionCount : Option Str
  pendingOperandCount : Option Str
  pendingVisualObject : Option TextObjectInclusion
  lastFindMotion : Option FindCharMotion
  register : Char
  dotRepeatEvent : Option VimEvent
  deriving DecidableEq, Repr

/-- What a handler returns: an event or none, with the state. A panic has no outcome. -/
abbrev Handled (α : Type) := Option (Option α × VimFSA)

def parseU32 (digits : Str) : Option ℕ :=
  if digits = [] ∨ ¬ digits.all Char.isDigit then none
  else
    let value := digits.foldl (fun n d => 10 * n + (d.toNat - '0'.toNat)) 0
    if value < 2 ^ 32 then some value else none

namespace VimFSA

def new : VimFSA := ⟨.insert, [], none, none, none, none, none, '"', none⟩

def clear (s : VimFSA) : VimFSA :=
  { s with
    showcmd := []
    pendingAction := none
    pendingActionCount := none
    pendingOperandCount := none
    pendingVisualObject := none
    register := '"' }

def interrupt (s : VimFSA) : VimFSA :=
  match s.mode with
  | .replace | .visual _ => { s.clear with mode := .normal }
  | .insert | .normal => s.clear

def forceInsertMode (s : VimFSA) : VimFSA := { s.clear with mode := .insert }

section Helpers

variable (s : VimFSA)

def emit (event : VimEventType) : Handled VimEventType := some (some event, s)

def wait : Handled VimEventType := some (none, s)

def cancel : Handled VimEventType := s.clear.wait

def pushActionDigit (c : Char) : VimFSA := { s with pendingActionCount := some (s.pendingActionCount.getD [] ++ [c]) }

def pushOperandDigit (c : Char) : VimFSA := { s with pendingOperandCount := some (s.pendingOperandCount.getD [] ++ [c]) }

def setPending (action : PendingAction) : VimFSA := { s with pendingAction := some action }

def getActionCount : Option ℕ := s.pendingActionCount.bind parseU32

def getOperandCount : Option ℕ := s.pendingOperandCount.bind parseU32

def changeMode (transition : ModeTransition) : VimEventType × VimFSA :=
  (.changeMode transition s.mode, { s with mode := transition.mode })

def emitMode (transition : ModeTransition) : Handled VimEventType :=
  let (event, s) := s.changeMode transition
  s.emit event

def createOperation (operator : VimOperator) (operand : VimOperand) : VimEventType :=
  .operation operator operand s.register []

def operate (operator : VimOperator) (operand : VimOperand) : Handled VimEventType := s.emit (s.createOperation operator operand)

def operateInserting (operand : VimOperand) : Handled VimEventType := VimFSA.operate { s with mode := .insert } .change operand

def createVisualOperator (c : Char) (motionType : MotionType) : Option VimEventType :=
  (VimOperator.ofChar c).map fun operator =>
    .visualOperator operator (if c.isUpper ∧ c ≠ 'U' then .linewise else motionType) s.register

def repeatFind (change : FindCharMotion → FindCharMotion) (use : VimFSA → FindCharMotion → Handled VimEventType) :
    Handled VimEventType :=
  match s.lastFindMotion with
  | some motion => use s (change motion.repetition)
  | none => s.cancel

/-- The bracket that a square bracket command looks for. -/
def unmatchedBracket (direction : Direction) (c : Char) : Option BracketChar :=
  (BracketType.ofChar c).map fun kind =>
    ⟨match direction with
      | .backward => .closing
      | .forward => .opening, kind⟩

def navigateFind (direction : Direction) (destination : FindCharDestination) (c : Char) : Handled VimEventType :=
  let motion : FindCharMotion := ⟨direction, destination, false, c⟩
  VimFSA.emit { s with lastFindMotion := some motion } (.navigate (.findChar motion))

def brackets : List Char := ['(', ')', '\x7b', '\x7d', '[', ']']

def textObjectChars : List Char := ['w', 'W', 'p', '\'', '"', '`', 'b', 'B', '(', ')', '[', ']', '\x7b', '\x7d']

def isCountDigit (c : Char) : Bool := ['1', '2', '3', '4', '5', '6', '7', '8', '9'].contains c

def jumpToUnmatched (direction : Direction) (c : Char) : Handled VimEventType :=
  if brackets.contains c then
    (unmatchedBracket direction c).bind fun bracket => s.emit (.navigate (.jumpToUnmatchedBracket bracket))
  else s.cancel

def setRegister (c : Char) : Handled VimEventType :=
  VimFSA.wait { s with register := if validRegisterName c then c else s.register, pendingAction := none }

/-- The motions that normal and visual mode share. -/
def handleMotion (c : Char) (other : Handled VimEventType) : Handled VimEventType :=
  if ['h', 'j', 'k', 'l', ' ', backspaceChar].contains c then
    (charMotionForCharacter c).bind fun motion => s.emit (.navigate (.character motion))
  else if ['w', 'W', 'b', 'B', 'e', 'E'].contains c then
    (wordMotionForCharacter c).bind fun motion => s.emit (.navigate (.word motion))
  else if ['^', '$'].contains c then
    (lineMotionForCharacter c).bind fun motion => s.emit (.navigate (.line motion))
  else if ['+', '-', '_'].contains c then
    (firstNonwhitespaceMotionForChar c).bind fun motion => s.emit (.navigate (.firstNonWhitespace motion))
  else if c = '0' then
    match s.pendingActionCount with
    | none => s.emit (.navigate (.line .start))
    | some _ => (s.pushActionDigit c).wait
  else if isCountDigit c then (s.pushActionDigit c).wait
  else if c = 'G' then
    match s.getActionCount with
    | some line => s.emit (.navigate (.jumpToLine line))
    | none => s.emit (.navigate .jumpToLastLine)
  else if c = '%' then s.emit (.navigate .jumpToMatchingBracket)
  else if c = '\x7b' then s.emit (.navigate (.paragraph .backward))
  else if c = '\x7d' then s.emit (.navigate (.paragraph .forward))
  else if c = ';' then s.repeatFind id fun s motion => s.emit (.navigate (.findChar motion))
  else if c = ',' then
    s.repeatFind FindCharMotion.withOppositeDirection fun s motion => s.emit (.navigate (.findChar motion))
  else other

end Helpers

section Normal

variable (s : VimFSA) (c : Char)

def handleNormalNothingPending : Handled VimEventType :=
  s.handleMotion c <|
  if c = 'i' then s.emitMode ⟨.insert, .atCursor⟩
  else if c = 'a' then s.emitMode ⟨.insert, .afterCursor⟩
  else if c = 'o' then s.emitMode ⟨.insert, .lineBelow⟩
  else if c = 'O' then s.emitMode ⟨.insert, .lineAbove⟩
  else if c = 'I' then s.emitMode ⟨.insert, .lineFirstNonWhitespace⟩
  else if c = 'A' then s.emitMode ⟨.insert, .lineEnd⟩
  else if c = 'x' then s.operate .delete (.motion .charwise (.character .right))
  else if c = 'X' then s.operate .delete (.motion .charwise (.character .left))
  else if c = 'r' then s.emitMode VimMode.replace.transition
  else if ['g', 'd', 'c', 'y', 'z', 'f', 'F', 't', 'T', '[', ']', '"'].contains c then
    (PendingAction.ofChar c).bind fun action => (s.setPending action).wait
  else if c = 'D' then s.operate .delete (.motion .charwise (.line .stop))
  else if c = 'C' then s.operateInserting (.motion .charwise (.line .stop))
  else if c = 'Y' then s.operate .yank .line
  else if c = 's' then s.operateInserting (.motion .charwise (.character .right))
  else if c = 'S' then s.operateInserting .line
  else if c = 'p' then s.emit (.paste .forward s.register)
  else if c = 'P' then s.emit (.paste .backward s.register)
  else if c = 'J' then s.emit .joinLine
  else if c = 'K' then s.emit .keywordPrg
  else if c = 'u' then s.emit .undo
  else if c = '~' then s.emit .toggleCase
  else if c = '/' then s.emit (.search .forward)
  else if c = '?' then s.emit (.search .backward)
  else if c = 'n' then s.emit (.cycleSearch .forward)
  else if c = 'N' then s.emit (.cycleSearch .backward)
  else if c = '*' then s.emit (.searchWordAtCursor .forward)
  else if c = '#' then s.emit (.searchWordAtCursor .backward)
  else if c = ':' then s.emit .exCommand
  else if c = '.' then
    match s.dotRepeatEvent with
    | some event => s.emit event.eventType
    | none => s.wait
  else if c = 'v' then s.emitMode (VimMode.visual .charwise).transition
  else if c = 'V' then s.emitMode (VimMode.visual .linewise).transition
  else s.cancel

def handleNormalPendingOperand (operator : VimOperator) : PendingOperand → Handled VimEventType
  | .g =>
    if ['e', 'E'].contains c then s.operate operator (.motion .charwise (.word ⟨.backward, .stop, .ofChar c⟩))
    else if c = 'g' then s.operate operator (.motion .linewise .jumpToFirstLine)
    else s.cancel
  | .findChar direction destination =>
    let motion : FindCharMotion := ⟨direction, destination, false, c⟩
    VimFSA.operate { s with lastFindMotion := some motion } operator (.motion .charwise (.findChar motion))
  | .textObject inclusion =>
    if textObjectChars.contains c then
      (TextObjectType.ofChar c).bind fun object => s.operate operator (.textObject ⟨inclusion, object⟩)
    else s.cancel
  | .squareBracket direction =>
    if brackets.contains c then
      (unmatchedBracket direction c).bind fun bracket =>
        s.operate operator (.motion .charwise (.jumpToUnmatchedBracket bracket))
    else s.cancel

def handleNormalPendingOperation (operator : VimOperator) : Handled VimEventType :=
  if c = 'd' ∧ operator = .delete then s.operate operator .line
  else if c = 'c' ∧ operator = .change then s.operate operator .line
  else if c = 'y' ∧ operator = .yank then s.operate operator .line
  else if c = 'c' ∧ operator = .toggleComment then s.operate operator .line
  else if ['i', 'a', 'g', 'f', 'F', 't', 'T', '[', ']'].contains c then
    (PendingOperand.ofChar c).bind fun operand => (s.setPending (.operation operator (some operand))).wait
  else if ['h', 'l', ' ', backspaceChar].contains c then
    (charMotionForCharacter c).bind fun motion => s.operate operator (.motion .charwise (.character motion))
  else if ['j', 'k'].contains c then
    (charMotionForCharacter c).bind fun motion => s.operate operator (.motion .linewise (.character motion))
  else if ['w', 'W', 'b', 'B', 'e', 'E'].contains c then
    (if operator = .change then closedWordMotionForCharacter c else wordMotionForCharacter c).bind fun motion =>
      s.operate operator (.motion .charwise (.word motion))
  else if ['^', '$'].contains c then
    (lineMotionForCharacter c).bind fun motion => s.operate operator (.motion .charwise (.line motion))
  else if ['+', '-', '_'].contains c then
    (firstNonwhitespaceMotionForChar c).bind fun motion => s.operate operator (.motion .linewise (.firstNonWhitespace motion))
  else if c = 'G' then
    s.operate operator (.motion .linewise
      (match s.getOperandCount with
        | some line => .jumpToLine line
        | none => .jumpToLastLine))
  else if c = '\x7b' then s.operate operator (.motion .linewise (.paragraph .backward))
  else if c = '\x7d' then s.operate operator (.motion .linewise (.paragraph .forward))
  else if c = '0' then
    match s.pendingOperandCount with
    | none => s.operate operator (.motion .charwise (.line .start))
    | some _ => (s.pushOperandDigit c).wait
  else if isCountDigit c then (s.pushOperandDigit c).wait
  else if c = '%' then s.operate operator (.motion .charwise .jumpToMatchingBracket)
  else if c = ';' then
    s.repeatFind id fun s motion => s.operate operator (.motion .charwise (.findChar motion))
  else if c = ',' then
    s.repeatFind FindCharMotion.withOppositeDirection fun s motion =>
      s.operate operator (.motion .charwise (.findChar motion))
  else s.cancel

def enterInsert (operator : VimOperator) : Handled VimEventType → Handled VimEventType
  | some (some event, s) => some (some event, if operator = .change then { s with mode := .insert } else s)
  | handled => handled

def handleNormalPendingAction : PendingAction → Handled VimEventType
  | .z => if c = 'z' then s.emit .centerCursorVertically else s.cancel
  | .g =>
    if ['e', 'E'].contains c then s.emit (.navigate (.word ⟨.backward, .stop, .ofChar c⟩))
    else if c = 'g' then s.emit (.navigate .jumpToFirstLine)
    else if c = 'd' then s.emit .gotoDefinition
    else if c = 'h' then s.emit .showHover
    else if c = 'r' then s.emit .findReferences
    else if ['~', 'u', 'U'].contains c then
      (VimOperator.ofChar c).bind fun operator => (s.setPending (.operation operator none)).wait
    else if c = 'c' then (s.setPending (.operation .toggleComment none)).wait
    else s.cancel
  | .findChar direction destination => s.navigateFind direction destination c
  | .squareBracket direction => s.jumpToUnmatched direction c
  | .setRegister => s.setRegister c
  | .operation operator (some operand) => enterInsert operator (s.handleNormalPendingOperand c operator operand)
  | .operation operator none => enterInsert operator (s.handleNormalPendingOperation c operator)

end Normal

section Visual

variable (s : VimFSA) (c : Char)

def handleVisualNothingPending (motionType : MotionType) : Handled VimEventType :=
  s.handleMotion c <|
  if ['d', 'D', 'y', 'Y', 'x', 'X', '~', 'u', 'U'].contains c then
    (s.createVisualOperator c motionType).bind fun event => VimFSA.emit { s with mode := .normal } event
  else if ['c', 'C', 's', 'S'].contains c then
    (s.createVisualOperator c motionType).bind fun event => VimFSA.emit { s with mode := .insert } event
  else if ['p', 'P'].contains c then
    VimFSA.emit { s with mode := .normal }
      (.visualPaste motionType s.register (if c = 'p' then s.register else blackHoleRegister))
  else if ['g', 'z', 'f', 'F', 't', 'T', '[', ']', '"'].contains c then
    (PendingAction.ofChar c).bind fun action => (s.setPending action).wait
  else if c = 'i' then VimFSA.wait { s with pendingVisualObject := some .inner }
  else if c = 'a' then VimFSA.wait { s with pendingVisualObject := some .around }
  else if c = 'v' then
    s.emitMode (match motionType with
      | .charwise => VimMode.normal.transition
      | .linewise => (VimMode.visual .charwise).transition)
  else if c = 'V' then
    s.emitMode (match motionType with
      | .linewise => VimMode.normal.transition
      | .charwise => (VimMode.visual .linewise).transition)
  else s.wait

def handleVisualPendingAction : PendingAction → Handled VimEventType
  | .z => if c = 'z' then s.emit .centerCursorVertically else s.cancel
  | .g =>
    if ['e', 'E'].contains c then s.emit (.navigate (.word ⟨.backward, .stop, .ofChar c⟩))
    else if c = 'g' then s.emit (.navigate .jumpToFirstLine)
    else if c = 'c' then
      VimFSA.emit { s with mode := .normal }
        (.visualOperator .toggleComment
          (match s.mode with
            | .visual motionType => motionType
            | _ => .charwise) s.register)
    else s.cancel
  | .findChar direction destination => s.navigateFind direction destination c
  | .squareBracket direction => s.jumpToUnmatched direction c
  | .setRegister => s.setRegister c
  | .operation _ _ => s.cancel

def handleVisualCommand (motionType : MotionType) : Handled VimEventType :=
  match s.pendingAction, s.pendingVisualObject with
  | some action, _ => s.handleVisualPendingAction c action
  | none, some inclusion =>
    if textObjectChars.contains c then
      (TextObjectType.ofChar c).bind fun object =>
        VimFSA.emit { s with mode := if c = 'p' then .visual .linewise else s.mode } (.visualTextObject ⟨inclusion, object⟩)
    else s.cancel
  | none, none => s.handleVisualNothingPending c motionType

end Visual

section Insert

variable (s : VimFSA)

def mapDotRepeatText (edit : Str → Str) : VimFSA :=
  match s.dotRepeatEvent with
  | some ⟨.insertText text position, count⟩ => { s with dotRepeatEvent := some ⟨.insertText (edit text) position, count⟩ }
  | some ⟨.operation .change operand register text, count⟩ =>
    { s with dotRepeatEvent := some ⟨.operation .change operand register (edit text), count⟩ }
  | _ => s

def handleInsertChar (c : Char) : Handled VimEventType := (s.mapDotRepeatText (· ++ [c])).emit (.insertChar c)

def handleInsertModeBackspace : VimEventType × VimFSA := (.backspace, s.mapDotRepeatText List.dropLast)

def handleInsertModeDelete : VimEventType × VimFSA :=
  (.deleteForward, if s.dotRepeatEvent.isNone then { s with dotRepeatEvent := some ⟨.deleteForward, 1⟩ } else s)

def exitInsertMode : VimEvent × VimFSA :=
  match s.dotRepeatEvent with
  | some ⟨.insertText text position, count⟩ =>
    if 1 < count then
      (⟨.insertText text (if position = .lineAbove ∨ position = .lineBelow then position else .atCursor), count - 1⟩,
        { s with mode := .normal })
    else
      let (event, s) := s.changeMode VimMode.normal.transition
      (.once event, s)
  | _ =>
    let (event, s) := s.changeMode VimMode.normal.transition
    (.once event, s)

end Insert

section Keys

variable (s : VimFSA)

/-- The count of an event. The product of the counts may leave `u32`. -/
def computeEventCount (c : Char) (event : VimEventType) : Option ℕ :=
  match c, event with
  | '.', _ => some (s.getActionCount.getD ((s.dotRepeatEvent.map VimEvent.count).getD 1))
  | _, .replaceChar _ => some (s.getActionCount.getD ((s.dotRepeatEvent.map VimEvent.count).getD 1))
  | _, _ =>
    let count := s.getActionCount.getD 1 * s.getOperandCount.getD 1
    if count < 2 ^ 32 then some count else none

def handle (c : Char) : Handled VimEventType :=
  match s.mode with
  | .insert => s.handleInsertChar c
  | .normal =>
    match s.pendingAction with
    | some action => s.handleNormalPendingAction c action
    | none => s.handleNormalNothingPending c
  | .visual motionType => s.handleVisualCommand c motionType
  | .replace => VimFSA.emit { s with mode := .normal } (.replaceChar (some c))

def typedCharacter (c : Char) : Handled VimEvent :=
  (VimFSA.handle { s with showcmd := s.showcmd ++ [c] } c).bind fun
    | (none, s) => some (none, s)
    | (some event, s) =>
      (s.computeEventCount c event).map fun count =>
        (some ⟨event, count⟩,
          { s.clear with dotRepeatEvent := (event.forDotRepeat.map (⟨·, count⟩)).or s.dotRepeatEvent })

def once : VimEventType × VimFSA → Handled VimEvent
  | (event, s) => some (some (.once event), s)

def ignore : Handled VimEvent := some (none, s)

def scroll (event : VimEventType) : Handled VimEvent := some (some ⟨event, s.getActionCount.getD 1⟩, s.clear)

def keypress (keystroke : String) : Handled VimEvent :=
  if keystroke = "escape" then
    match s.mode with
    | .normal => once (.escape, s.clear)
    | .replace | .visual _ => once (s.changeMode VimMode.normal.transition)
    | .insert =>
      let (event, s) := s.exitInsertMode
      some (some event, s)
  else if keystroke = "backspace" then
    match s.mode with
    | .insert => once s.handleInsertModeBackspace
    | .visual _ | .normal => s.typedCharacter backspaceChar
    | .replace => once (s.changeMode VimMode.normal.transition)
  else if keystroke = "enter" ∨ keystroke = "shift-enter" ∨ keystroke = "numpadenter" then
    match s.mode with
    | .insert => once (.insertChar '\n', s)
    | .normal | .visual _ => once (.navigate (.firstNonWhitespace .down), s)
    | .replace => once (s.changeMode VimMode.normal.transition)
  else if keystroke = "tab" ∨ keystroke = "shift-tab" then
    match s.mode with
    | .insert => once (.insertChar '\t', s)
    | _ => s.ignore
  else if keystroke = "delete" then
    match s.mode with
    | .insert => once s.handleInsertModeDelete
    | .normal | .visual _ => s.typedCharacter 'x'
    | .replace => once (s.changeMode VimMode.normal.transition)
  else if keystroke = "ctrl-d" then
    match s.mode with
    | .normal | .visual _ => s.scroll .scrollHalfPageDown
    | _ => s.ignore
  else if keystroke = "ctrl-u" then
    match s.mode with
    | .normal | .visual _ => s.scroll .scrollHalfPageUp
    | _ => s.ignore
  else s.ignore

end Keys

end VimFSA

inductive Key
  | typed (c : Char)
  | press (keystroke : String)
  | interrupt
  | forceInsert
  deriving DecidableEq, Repr

namespace VimFSA

def step (s : VimFSA) : Key → Handled VimEvent
  | .typed c => s.typedCharacter c
  | .press keystroke => s.keypress keystroke
  | .interrupt => some (none, s.interrupt)
  | .forceInsert => some (none, s.forceInsertMode)

def run (s : VimFSA) : List Key → Option VimFSA
  | [] => some s
  | key :: keys => (s.step key).bind fun handled => run handled.2 keys

end VimFSA

end Warp.Vim
