import Warp.Ansi.Performer
import Warp.Lib.HashMap
import Warp.Tmux.Commands

namespace Warp.Ansi

open Tmux (ParserState TmuxMessage TmuxCommandResponse)

inductive ControlModeEvent where
  | starting
  | controlModeReady (primaryWindow primaryPane : ℕ)
  | backgroundPaneOutput (pane : ℕ) (byte : UInt8)
  | exited
  deriving DecidableEq

inductive Call (δ : Type) where
  | handler (call : HandlerCall δ)
  | finishReceivingHook
  | onFinishByteProcessing (bytes : Bytes) (isSynchronizedOutputFrame : Bool)
  | tmuxControlModeEvent (event : ControlModeEvent)

def Call.isOfHook {δ : Type} : Call δ → Bool
  | .handler (.startReceivingHook _) => true
  | .handler (.updateHook _ _) => true
  | .finishReceivingHook => true
  | _ => false

def recorder {δ : Type} (pendingHook : List (Call δ) → Option (DProtoHook δ)) : Handler δ (List (Call δ)) where
  call call calls := calls ++ [.handler call]
  finishReceivingHook calls := (pendingHook (calls.filter Call.isOfHook), calls ++ [.finishReceivingHook])

structure Vte (P : Type) where
  new : P
  advance : P → UInt8 → P × List Event

structure Setting (P δ : Type) where
  vte : Vte P
  env : Env δ
  pendingHook : List (Call δ) → Option (DProtoHook δ)
  debugAssertions : Bool
  order : List (ℕ × Bytes) → List (ℕ × Bytes)
  order_perm : ∀ entries, (order entries).Perm entries

structure Outside (δ : Type) where
  calls : List (Call δ)
  written : Bytes
  images : ℕ

def Outside.new {δ : Type} : Outside δ := ⟨[], [], 0⟩

def Outside.call {δ : Type} (self : Outside δ) (call : Call δ) : Outside δ := { self with calls := self.calls ++ [call] }

/-- A parser with what its performer reads and writes: that control mode has started, and that synchronized output is
active, but neither the state of the one nor the buffer of the other. -/
structure Core (P : Type) where
  parser : P
  precedingChar : Option Char
  dcsData : DcsData
  apcData : Bytes
  tmuxControlMode : Bool
  syncOutput : Bool

variable {P δ : Type} (setting : Setting P δ)

def Setting.handler : Handler δ (List (Call δ)) := recorder setting.pendingHook

namespace Core

def new : Core P := ⟨setting.vte.new, none, ⟨[], [], '\x00'⟩, [], false, false⟩

def performer (self : Core P) (outside : Outside δ) : Performer (List (Call δ)) where
  precedingChar := self.precedingChar
  dcsData := self.dcsData
  apcData := self.apcData
  tmuxControlMode := self.tmuxControlMode
  syncOutput := self.syncOutput
  handler := outside.calls
  written := outside.written
  images := outside.images

def ofPerformer (parser : P) (performer : Performer (List (Call δ))) : Core P × Outside δ :=
  (⟨parser, performer.precedingChar, performer.dcsData, performer.apcData, performer.tmuxControlMode, performer.syncOutput⟩,
    ⟨performer.handler, performer.written, performer.images⟩)

def advance (reached : Core P × Outside δ) (byte : UInt8) : Option (Core P × Outside δ) :=
  let moved := setting.vte.advance reached.1.parser byte
  ((reached.1.performer reached.2).run setting.env setting.handler moved.2).map (ofPerformer moved.1)

def feed (reached : Core P × Outside δ) (bytes : Bytes) : Option (Core P × Outside δ) := bytes.foldlM (advance setting) reached

end Core

inductive PrimaryPaneState where
  | pending (paneOutputMap : HashMap ℕ Bytes)
  | ready (paneId : ℕ)

structure TmuxControlMode (P : Type) where
  controlModeParser : ParserState
  ansiProcessor : Core P
  primaryPane : PrimaryPaneState

def TmuxControlMode.new : TmuxControlMode P := ⟨.beginningOfLine, Core.new setting, .pending .empty⟩

structure TmuxPerformer (P δ : Type) where
  ansiProcessor : Core P
  primaryPane : PrimaryPaneState
  exited : Bool
  parseError : Bool
  outside : Outside δ
  primaryPaneOutput : Bytes

namespace TmuxPerformer

def call (self : TmuxPerformer P δ) (call : Call δ) : TmuxPerformer P δ := { self with outside := self.outside.call call }

/-- What the performer writes goes to the pane as keys. -/
def processPrimaryPaneOutput (self : TmuxPerformer P δ) (byte : UInt8) : Option (TmuxPerformer P δ) :=
  (Core.advance setting (self.ansiProcessor, self.outside) byte).map fun moved =>
    { self with ansiProcessor := moved.1, outside := { moved.2 with written := self.outside.written } }

def backgroundPaneOutput (self : TmuxPerformer P δ) (pane : ℕ) (bytes : Bytes) : TmuxPerformer P δ :=
  bytes.foldl (fun self byte => self.call (.tmuxControlModeEvent (.backgroundPaneOutput pane byte))) self

def replay (primaryPane : ℕ) (self : TmuxPerformer P δ) (entry : ℕ × Bytes) : Option (TmuxPerformer P δ) :=
  if primaryPane = entry.1 then do
    let self ← entry.2.foldlM (processPrimaryPaneOutput setting) self
    some (self.call (.onFinishByteProcessing entry.2 false))
  else some (self.backgroundPaneOutput entry.1 entry.2)

/-- A second message changes the pane, and nothing is replayed. -/
def initPrimaryPane (self : TmuxPerformer P δ) (primaryWindow primaryPane : ℕ) : Option (TmuxPerformer P δ) :=
  match self.primaryPane with
  | .ready _ => some { self with primaryPane := .ready primaryPane }
  | .pending paneOutputMap =>
    let self := { self with primaryPane := .ready primaryPane }
    (setting.order paneOutputMap.entries).foldlM (replay setting primaryPane)
      (self.call (.tmuxControlModeEvent (.controlModeReady primaryWindow primaryPane)))

def paneOutput (self : TmuxPerformer P δ) (pane : ℕ) (byte : UInt8) : Option (TmuxPerformer P δ) :=
  match self.primaryPane with
  | .pending paneOutputMap =>
    some { self with primaryPane := .pending (paneOutputMap.insert pane ((paneOutputMap.get? pane).getD [] ++ [byte])) }
  | .ready primaryPane =>
    if pane = primaryPane then
      processPrimaryPaneOutput setting { self with primaryPaneOutput := self.primaryPaneOutput ++ [byte] } byte
    else some (self.call (.tmuxControlModeEvent (.backgroundPaneOutput pane byte)))

def commandLine (self : TmuxPerformer P δ) (line : Bytes) : Option (TmuxPerformer P δ) :=
  (Tmux.parseCommand line).bind fun
    | some (.setPrimaryWindowPane windowId paneId) => self.initPrimaryPane setting windowId paneId
    | some (.backgroundWindow _ _) => some self
    | none => some self

def tmuxControlModeMessage (self : TmuxPerformer P δ) : TmuxMessage → Option (TmuxPerformer P δ)
  | .exit => some { self with exited := true }
  | .parseError _ _ => some { self with exited := true, parseError := true }
  | .commandOutput (.ok outputLines) => outputLines.foldlM (commandLine setting) self
  | .commandOutput (.error _) => some self
  | .unknown _ _ => some self
  | .windowClose _ => some self

def perform (self : TmuxPerformer P δ) : Tmux.Call → Option (TmuxPerformer P δ)
  | .paneOutput pane byte => self.paneOutput setting pane byte
  | .tmuxControlModeMessage message => self.tmuxControlModeMessage setting message

/-- The bytes up to the one at which control mode is left, and those after it. -/
def parse (self : TmuxPerformer P δ) (parser : ParserState) :
    Bytes → Option ((TmuxPerformer P δ × ParserState) × Bytes)
  | [] => some ((self, parser), [])
  | byte :: bytes => do
    let (parser, calls) ← parser.advance setting.debugAssertions byte
    let self ← calls.foldlM (perform setting) self
    if self.exited then some ((self, parser), bytes) else self.parse parser bytes

end TmuxPerformer

structure Processor (P : Type) where
  core : Core P
  buffer : Bytes
  control : TmuxControlMode P

def setMarker : Bytes := ascii "\x1b[?2026h"
def unsetMarker : Bytes := ascii "\x1b[?2026l"

def syncOutputMaxBufferSize : ℕ := 2097152

namespace Processor

def new : Processor P := ⟨Core.new setting, [], TmuxControlMode.new setting⟩

abbrev Parse (P δ : Type) := Processor P × Outside δ → Bool → Bytes → Option (Processor P × Outside δ)

def finishSyncOutputWith (parse : Parse P δ) (reached : Processor P × Outside δ) : Option (Processor P × Outside δ) :=
  if reached.1.core.syncOutput then do
    let flushed ← parse ({ reached.1 with core := { reached.1.core with syncOutput := false }, buffer := [] }, reached.2) true
      reached.1.buffer
    some (flushed.1, flushed.2.call (.handler (.unsetMode .syncOutput)))
  else some reached

/-- A byte that is not part of a tmux control sequence. -/
def parseByteWith (parse : Parse P δ) (reached : Processor P × Outside δ) (byte : UInt8) : Option (Processor P × Outside δ) :=
  if reached.1.core.syncOutput then
    let buffer := reached.1.buffer ++ [byte]
    let cut := buffer.take (buffer.length - 8)
    if setMarker <:+ buffer then some ({ reached.1 with buffer := cut }, reached.2)
    else if unsetMarker <:+ buffer then finishSyncOutputWith parse ({ reached.1 with buffer := cut }, reached.2)
    else if syncOutputMaxBufferSize ≤ buffer.length then
      finishSyncOutputWith parse ({ reached.1 with buffer := buffer }, reached.2)
    else some ({ reached.1 with buffer := buffer }, reached.2)
  else (Core.advance setting (reached.1.core, reached.2) byte).map fun moved =>
    (⟨moved.1, [], TmuxControlMode.new setting⟩, moved.2)

/-- The bytes up to the one that starts control mode or toggles synchronized output, and those after it. -/
def parseUntil (step : Processor P × Outside δ → UInt8 → Option (Processor P × Outside δ)) (reached : Processor P × Outside δ) :
    Bytes → Option ((Processor P × Outside δ) × Bytes)
  | [] => some (reached, [])
  | byte :: bytes => do
    let next ← step reached byte
    if next.1.core.tmuxControlMode ∨ reached.1.core.syncOutput ≠ next.1.core.syncOutput then some (next, bytes)
    else parseUntil step next bytes

def parsePlain (parse : Parse P δ) (reached : Processor P × Outside δ) (isFrame : Bool) (bytes : Bytes) :
    Option ((Processor P × Outside δ) × Bytes) := do
  let ((self, outside), rest) ← parseUntil (parseByteWith setting parse) reached bytes
  let outside := outside.call (.onFinishByteProcessing (bytes.take (bytes.length - rest.length)) isFrame)
  some ((self, if self.core.tmuxControlMode then outside.call (.tmuxControlModeEvent .starting) else outside), rest)

def parseControl (reached : Processor P × Outside δ) (isFrame : Bool) (bytes : Bytes) :
    Option ((Processor P × Outside δ) × Bytes) := do
  let control := reached.1.control
  let ((performer, parser), rest) ←
    TmuxPerformer.parse setting ⟨control.ansiProcessor, control.primaryPane, false, false, reached.2, []⟩
      control.controlModeParser bytes
  let self := { reached.1 with control := ⟨parser, performer.ansiProcessor, performer.primaryPane⟩ }
  let outside := performer.outside.call (.onFinishByteProcessing performer.primaryPaneOutput isFrame)
  if performer.exited then
    let outside := outside.call (.tmuxControlModeEvent .exited)
    if performer.parseError then some ((new setting, outside), bytes.drop (bytes.length - rest.length - 1))
    else some (({ self with core := { self.core with tmuxControlMode := false } }, outside), rest)
  else some ((self, outside), rest)

/-- The loop of the source, with a bound on how deep it goes. -/
def parseBytesInternal : ℕ → Parse P δ
  | 0, _, _, _ => none
  | fuel + 1, reached, isFrame, bytes =>
    if bytes = [] then some reached
    else do
      let (next, rest) ←
        if reached.1.core.tmuxControlMode then parseControl setting reached isFrame bytes
        else parsePlain setting (parseBytesInternal fuel) reached isFrame bytes
      parseBytesInternal fuel next isFrame rest

def depth (self : Processor P) (bytes : Bytes) : ℕ := 4 * (self.buffer.length + bytes.length) + 4

def parseBytes (reached : Processor P × Outside δ) (bytes : Bytes) : Option (Processor P × Outside δ) :=
  parseBytesInternal setting (reached.1.depth bytes) reached false bytes

def finishSyncOutput (reached : Processor P × Outside δ) : Option (Processor P × Outside δ) :=
  finishSyncOutputWith (parseBytesInternal setting (reached.1.depth [])) reached

end Processor

end Warp.Ansi
