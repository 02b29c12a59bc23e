import Warp.Ansi.Images
import Warp.Ansi.Parameters
import Warp.Lib.Utf8Lossy

namespace Warp.Ansi

open Str
open Grid (ColorU)

/-- The hooks of the shell. What their values contain is read by the handler alone. -/
inductive DProtoHook (δ : Type) where
  | commandFinished (value : δ)
  | precmd (value : δ)
  | preexec (value : δ)
  | bootstrapped (value : δ)
  | preInteractiveSSHSession (value : δ)
  | ssh (value : δ)
  | initShell (value : δ)
  | inputBuffer (value : δ)
  | clear (value : δ)
  | initSubshell (value : δ)
  | sourcedRcFileForWarp (value : δ)
  | initSsh (value : δ)
  | finishUpdate (value : δ)
  | remoteWarpificationIsUnavailable (value : δ)
  | sshTmuxInstaller (value : Str)
  | tmuxInstallFailed (value : δ)
  | exitShell (value : δ)

inductive TmuxInstallationState where
  | installedByWarpRootInThisSession
  | installedByWarpInThisSession
  | installedByWarpInPriorSession
  | installedByUser
  | notInstalled
  deriving DecidableEq

def TmuxInstallationState.fromStr (input : Str) : Option TmuxInstallationState :=
  [("installed_by_warp_root_in_this_session".toList, .installedByWarpRootInThisSession),
    ("installed_by_warp_in_this_session".toList, .installedByWarpInThisSession),
    ("warp".toList, .installedByWarpInPriorSession),
    ("installed_by_warp_in_prior_session".toList, .installedByWarpInPriorSession),
    ("user".toList, .installedByUser), ("installed_by_user".toList, .installedByUser),
    ("not_installed".toList, .notInstalled)].lookup input

structure ShellCompletion where
  name : Str
  description : Option Str
  deriving DecidableEq

def ShellCompletion.new (name : Str) : ShellCompletion := ⟨trim name, none⟩

inductive CompletionsShellData where
  | raw (output : Str)
  | incrementallyTyped (output : List ShellCompletion)
  deriving DecidableEq

def CompletionsShellData.fromFormatType (format : Str) : Option CompletionsShellData :=
  if format = "raw".toList then some (.raw [])
  else if format = "incrementally_typed".toList then some (.incrementallyTyped [])
  else none

inductive ShellCompletionUpdate where
  | description (value : Str)
  deriving DecidableEq

inductive KeyboardModesApplyBehavior where
  | replace
  | union
  | difference
  deriving DecidableEq

def KeyboardModesApplyBehavior.fromKittyApplyMode (mode : UInt16) : Option KeyboardModesApplyBehavior :=
  if mode = 1 then some .replace else if mode = 2 then some .union else if mode = 3 then some .difference else none

def keyboardModes (bits : UInt16) : UInt16 := bits &&& 31

namespace ColorIndex

def foreground : ℕ := 256
def background : ℕ := 257
def cursor : ℕ := 258

end ColorIndex

inductive HandlerCall (δ : Type) where
  | input (c : Char)
  | putTab (count : ℕ)
  | backspace
  | carriageReturn
  | linefeed
  | bell
  | substitute
  | setActiveCharset (index : CharsetIndex)
  | configureCharset (index : CharsetIndex) (charset : StandardCharset)
  | setHorizontalTabstop
  | reverseIndex
  | resetState
  | decaln
  | setKeypadApplicationMode
  | unsetKeypadApplicationMode
  | insertBlank (count : ℕ)
  | moveUp (lines : ℕ)
  | moveDown (lines : ℕ)
  | moveForward (cols : ℕ)
  | moveBackward (cols : ℕ)
  | moveDownAndCr (lines : ℕ)
  | moveUpAndCr (lines : ℕ)
  | identifyTerminal (intermediate : Option Char)
  | gotoLine (line : ℕ)
  | gotoCol (col : ℕ)
  | goto (line col : ℕ)
  | clearTabs (mode : TabulationClearMode)
  | setMode (mode : Mode)
  | unsetMode (mode : Mode)
  | moveForwardTabs (count : UInt16)
  | moveBackwardTabs (count : UInt16)
  | clearScreen (mode : ClearMode)
  | clearLine (mode : LineClearMode)
  | insertBlankLines (count : ℕ)
  | deleteLines (count : ℕ)
  | terminalAttribute (attr : Attr)
  | deviceStatus (arg : ℕ)
  | deleteChars (count : ℕ)
  | setCursorStyle (style : Option CursorStyle)
  | reportXtversion
  | setScrollingRegion (top : ℕ) (bottom : Option ℕ)
  | scrollUp (lines : ℕ)
  | scrollDown (lines : ℕ)
  | saveCursorPosition
  | restoreCursorPosition
  | textAreaSizePixels
  | textAreaSizeChars
  | pushTitle
  | popTitle
  | setKeyboardEnhancementFlags (flags : UInt16) (apply : KeyboardModesApplyBehavior)
  | pushKeyboardEnhancementFlags (flags : UInt16)
  | popKeyboardEnhancementFlags (count : UInt16)
  | queryKeyboardEnhancementFlags
  | eraseChars (count : ℕ)
  | setTitle (title : Option Str)
  | setColor (index : ℕ) (color : ColorU)
  | resetColor (index : ℕ)
  | dynamicColorSequence (code : ℕ) (index : ℕ) (terminator : Str)
  | pluggableNotification (title : Option Str) (body : Str)
  | setCursorShape (shape : CursorShape)
  | clipboardLoad (clipboard : UInt8) (terminator : Str)
  | clipboardStore (clipboard : UInt8) (base64 : Bytes)
  | promptMarker (marker : PromptMarker)
  | startItermImageReceiving (metadata : ITermImageMetadata)
  | onItermImageDataReceived (data : Bytes)
  | endItermImageReceiving
  | onKittyImageChunkReceived (chunk : KittyChunk)
  | endKittyActionReceiving
  | startInBandCommandOutput
  | endInBandCommandOutput (success : Bool)
  | onResetGrid
  | startCompletionsOutput (format : CompletionsShellData)
  | endCompletionsOutput
  | onCompletionResultReceived (result : ShellCompletion)
  | updateLastCompletionResult (update : ShellCompletionUpdate)
  | sendCompletionsPrompt
  | startReceivingHook (name : Str)
  | updateHook (key value : Str)
  | commandFinished (value : δ)
  | precmd (value : δ)
  | preexec (value : δ)
  | bootstrapped (value : δ)
  | preInteractiveSshSession (value : δ)
  | ssh (value : δ)
  | initShell (value : δ)
  | inputBuffer (value : δ)
  | clear (value : δ)
  | initSubshell (value : δ)
  | initSsh (value : δ)
  | sourcedRcFile (value : δ)
  | finishUpdate (value : δ)
  | remoteWarpificationIsUnavailable (value : δ)
  | notifySshTmuxIsInstalled (installation : TmuxInstallationState)
  | tmuxInstallFailed (value : δ)
  | exitShell (value : δ)

structure Handler (δ σ : Type) where
  call : HandlerCall δ → σ → σ
  finishReceivingHook : σ → Option (DProtoHook δ) × σ

/-- The build, the feature flags, and the libraries that the performer calls. -/
structure Env (δ : Type) where
  windows : Bool
  kittyImages : Bool
  sshTmuxWrapper : Bool
  codec : ImageCodec
  imageIds : ℕ → UInt32
  hookFromSlice : Bytes → Option (DProtoHook δ)
  hookFromStr : Str → Option (DProtoHook δ)

structure DcsData where
  data : Bytes
  intermediates : Bytes
  finalChar : Char
  deriving DecidableEq

/-- The state of the processor and of the handler, what was written back, and how many images were identified. -/
structure Performer (σ : Type) where
  precedingChar : Option Char
  dcsData : DcsData
  apcData : Bytes
  tmuxControlMode : Bool
  syncOutput : Bool
  handler : σ
  written : Bytes
  images : ℕ

def Performer.new {σ : Type} (handler : σ) : Performer σ :=
  ⟨none, ⟨[], [], '\x00'⟩, [], false, false, handler, [], 0⟩

end Warp.Ansi
