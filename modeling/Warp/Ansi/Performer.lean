import Warp.Ansi.Handler

namespace Warp.Ansi

open Checked Str

variable {δ σ : Type} (env : Env δ) (handler : Handler δ σ)

def Performer.emit (self : Performer σ) (call : HandlerCall δ) : Performer σ :=
  { self with handler := handler.call call self.handler }

def Performer.emits (self : Performer σ) (calls : List (HandlerCall δ)) : Performer σ :=
  calls.foldl (Performer.emit handler) self

def joinSemicolons (parts : List Str) : Str := [';'].intercalate parts

def Performer.handleDecodedHook (self : Performer σ) : Option (DProtoHook δ) → Performer σ
  | some (.commandFinished value) => self.emit handler (.commandFinished value)
  | some (.precmd value) => self.emit handler (.precmd value)
  | some (.preexec value) => self.emit handler (.preexec value)
  | some (.bootstrapped value) => self.emit handler (.bootstrapped value)
  | some (.preInteractiveSSHSession value) => self.emit handler (.preInteractiveSshSession value)
  | some (.ssh value) => self.emit handler (.ssh value)
  | some (.initShell value) => self.emit handler (.initShell value)
  | some (.inputBuffer value) => self.emit handler (.inputBuffer value)
  | some (.clear value) => self.emit handler (.clear value)
  | some (.initSubshell value) => self.emit handler (.initSubshell value)
  | some (.initSsh value) => self.emit handler (.initSsh value)
  | some (.sourcedRcFileForWarp _) => self
  | some (.finishUpdate value) => self.emit handler (.finishUpdate value)
  | some (.remoteWarpificationIsUnavailable value) => self.emit handler (.remoteWarpificationIsUnavailable value)
  | some (.sshTmuxInstaller value) =>
    match TmuxInstallationState.fromStr value with
    | some installation => self.emit handler (.notifySshTmuxIsInstalled installation)
    | none => self
  | some (.tmuxInstallFailed value) => self.emit handler (.tmuxInstallFailed value)
  | some (.exitShell value) => self.emit handler (.exitShell value)
  | none => self

/-- Only the hooks of the files that a shell sources may come without an encoding. -/
def Performer.handleUnencodedHook (self : Performer σ) : Option (DProtoHook δ) → Performer σ
  | some (.initShell value) => self.emit handler (.initShell value)
  | some (.initSubshell value) => self.emit handler (.initSubshell value)
  | some (.sourcedRcFileForWarp value) => self.emit handler (.sourcedRcFile value)
  | some (.initSsh value) => self.emit handler (.initSsh value)
  | some _ => self
  | none => self

def hexDecode : Bytes → Option Bytes
  | [] => some []
  | [_] => none
  | high :: low :: rest => do
    let high ← toDigit 16 (Char.ofNat high.toNat)
    let low ← toDigit 16 (Char.ofNat low.toNat)
    let rest ← hexDecode rest
    some (.ofNat (high * 16 + low) :: rest)

def Performer.handleDecodedData (self : Performer σ) (decoded : Option Bytes) : Performer σ :=
  match decoded with
  | some decoded => self.handleDecodedHook handler (env.hookFromSlice decoded)
  | none => self

def Performer.handleKvMarker (self : Performer σ) (params : List Bytes) : Option (Performer σ) :=
  match params[2]? with
  | none => some self
  | some marker =>
    if marker = ascii "A" then
      match params[3]? with
      | none => some self
      | some hook => some (self.emit handler (.startReceivingHook (fromUtf8Lossy hook)))
    else if marker = ascii "C" then
      let (pending, state) := handler.finishReceivingHook self.handler
      let self := { self with handler := state }
      match pending with
      | none => some self
      | some hook => some (self.handleDecodedHook handler (some hook))
    else if marker = ascii "B" then
      match params[3]? with
      | none => some self
      | some key => do
        let values ← sliceFrom params 4
        some (self.emit handler (.updateHook (fromUtf8Lossy key) (joinSemicolons (values.map fromUtf8Lossy))))
    else some self

def Performer.print (self : Performer σ) (c : Char) : Performer σ :=
  { self.emit handler (.input c) with precedingChar := some c }

def executeCall : UInt8 → Option (HandlerCall δ)
  | 0x09 => some (.putTab 1)
  | 0x08 => some .backspace
  | 0x0D => some .carriageReturn
  | 0x0A => some .linefeed
  | 0x0B => some .linefeed
  | 0x0C => some .linefeed
  | 0x07 => some .bell
  | 0x1A => some .substitute
  | 0x0F => some (.setActiveCharset .g0)
  | 0x0E => some (.setActiveCharset .g1)
  | _ => none

def Performer.execute (self : Performer σ) (byte : UInt8) : Performer σ := self.emits handler (executeCall byte).toList

/-- The number of parameters counts subparameters too. -/
def Performer.hook (self : Performer σ) (params : List Param) (intermediates : Bytes) (c : Char) : Performer σ :=
  let entersControlMode := env.sshTmuxWrapper && c = 'p' && (params.map fun param => param.values.length).sum = 1 &&
    params.head?.map Param.values = some [1000]
  { self with
    tmuxControlMode := self.tmuxControlMode || entersControlMode
    dcsData := ⟨[], intermediates, c⟩ }

def Performer.put (self : Performer σ) (byte : UInt8) : Performer σ :=
  { self with dcsData := { self.dcsData with data := self.dcsData.data ++ [byte] } }

def Performer.unhook (self : Performer σ) : Performer σ :=
  let data := fromUtf8Lossy self.dcsData.data
  if self.dcsData.finalChar = 'd' then self.handleDecodedData env handler (hexDecode (bytes data))
  else if self.dcsData.finalChar = 'f' then self.handleUnencodedHook handler (env.hookFromStr data)
  else self

def charsetIndex : Bytes → Option CharsetIndex
  | [0x28] => some .g0
  | [0x29] => some .g1
  | [0x2A] => some .g2
  | [0x2B] => some .g3
  | _ => none

def configureCharset (charset : StandardCharset) (intermediates : Bytes) : List (HandlerCall δ) :=
  ((charsetIndex intermediates).map (.configureCharset · charset)).toList

def escCalls (byte : UInt8) (intermediates : Bytes) : List (HandlerCall δ) :=
  match Char.ofNat byte.toNat, intermediates with
  | 'B', intermediates => configureCharset .ascii intermediates
  | 'D', [] => [.linefeed]
  | 'E', [] => [.linefeed, .carriageReturn]
  | 'H', [] => [.setHorizontalTabstop]
  | 'M', [] => [.reverseIndex]
  | 'Z', [] => [.identifyTerminal none]
  | 'c', [] => [.resetState]
  | '0', intermediates => configureCharset .specialCharacterAndusizeDrawing intermediates
  | '7', [] => [.saveCursorPosition]
  | '8', [0x23] => [.decaln]
  | '8', [] => [.restoreCursorPosition]
  | '=', [] => [.setKeypadApplicationMode]
  | '>', [] => [.unsetKeypadApplicationMode]
  | _, _ => []

def Performer.escDispatch (self : Performer σ) (intermediates : Bytes) (byte : UInt8) : Performer σ :=
  self.emits handler (escCalls byte intermediates)

def Performer.apcStart (self : Performer σ) : Performer σ := { self with apcData := [] }

def Performer.apcPut (self : Performer σ) (byte : UInt8) : Performer σ := { self with apcData := self.apcData ++ [byte] }

def Performer.apcEnd (self : Performer σ) : Option (Performer σ) :=
  match self.apcData.head? with
  | none => some self
  | some first =>
    if first = 71 then
      if env.kittyImages then do
        let data ← sliceFrom self.apcData 1
        let chunk ← parseKittyChunk data
        let self := self.emit handler (.onKittyImageChunkReceived chunk)
        some (if chunk.controlData.furtherChunks then self else self.emit handler .endKittyActionReceiving)
      else some self
    else some self

inductive OscCode where
  | title
  | colorIndex
  | notification
  | dynamicColor
  | cursorStyle
  | clipboard
  | resetColorIndex
  | resetForeground
  | resetBackground
  | resetCursor
  | promptMarker
  | titledNotification
  | inlineImage
  | inBandGenerator
  | warp
  | resetGrid
  | completions
  | unexpected
  | unknown
  deriving DecidableEq

def OscCode.ofBytes (code : Bytes) : OscCode :=
  spelled [("0", .title), ("2", .title), ("4", .colorIndex), ("9", .notification), ("10", .dynamicColor),
    ("11", .dynamicColor), ("12", .dynamicColor), ("50", .cursorStyle), ("52", .clipboard), ("104", .resetColorIndex),
    ("110", .resetForeground), ("111", .resetBackground), ("112", .resetCursor), ("133", .promptMarker),
    ("777", .titledNotification), ("1337", .inlineImage), ("9277", .inBandGenerator), ("9278", .warp),
    ("9279", .resetGrid), ("9280", .completions), ("781378", .unexpected)] .unknown code

def joinedText (params : List Bytes) : Str := trim (joinSemicolons (params.filterMap fromUtf8))

def Performer.oscTitle (self : Performer σ) (params : List Bytes) : Option (Performer σ) :=
  if 2 ≤ params.length then do
    let parts ← sliceFrom params 1
    some (self.emit handler (.setTitle (some (joinedText parts))))
  else some self

def chunksOfTwo {α : Type} : List α → List (List α)
  | [] => []
  | [a] => [[a]]
  | a :: b :: rest => [a, b] :: chunksOfTwo rest

/-- Ends at the first chunk that names a color. -/
def Performer.setIndexedColor (self : Performer σ) : List (List Bytes) → Option (Performer σ)
  | [] => some self
  | chunk :: chunks => do
    let name ← index chunk 0
    let spec ← index chunk 1
    let color ← xparseColor spec
    match parseNumber name, color with
    | some i, some c => some (self.emit handler (.setColor i c))
    | _, _ => self.setIndexedColor chunks

def Performer.oscColorIndex (self : Performer σ) (params : List Bytes) : Option (Performer σ) :=
  if 1 < params.length ∧ params.length % 2 ≠ 0 then do
    let pairs ← sliceFrom params 1
    self.setIndexedColor handler (chunksOfTwo pairs)
  else some self

/-- A number alone after the code is a command of another terminal and no message. -/
def Performer.oscNotification (self : Performer σ) (params : List Bytes) : Option (Performer σ) :=
  if 2 ≤ params.length then do
    let first ← index params 1
    if first ≠ [] ∧ first.all isAsciiDigit then some self
    else do
      let parts ← sliceFrom params 1
      match parts.mapM fromUtf8 with
      | none => some self
      | some parts =>
        let body := trim (joinSemicolons parts)
        some (if body ≠ [] then self.emit handler (.pluggableNotification none body) else self)
  else some self

def Performer.setDynamicColors (self : Performer σ) (terminator : Str) (code : ℕ) : List Bytes → Option (Performer σ)
  | [] => some self
  | param :: params => do
    let offset ← sub code 10
    let index := ColorIndex.foreground + offset
    if ColorIndex.cursor < index then some self
    else do
      let color ← xparseColor param
      let next := match color with
        | some color => self.emit handler (.setColor index color)
        | none => if param = ascii "?" then self.emit handler (.dynamicColorSequence code index terminator) else self
      let code ← add 8 code 1
      next.setDynamicColors terminator code params

def Performer.oscDynamicColor (self : Performer σ) (terminator : Str) (params : List Bytes) : Option (Performer σ) :=
  if 2 ≤ params.length then do
    let code ← index params 0
    match parseNumber code with
    | none => some self
    | some code => do
      let params ← sliceFrom params 1
      self.setDynamicColors handler terminator code params
  else some self

def cursorShape (byte : UInt8) : Option CursorShape :=
  if byte = 48 then some .block else if byte = 49 then some .beam else if byte = 50 then some .underline else none

def Performer.oscCursorStyle (self : Performer σ) (params : List Bytes) : Option (Performer σ) :=
  if 2 ≤ params.length then do
    let param ← index params 1
    if 13 ≤ param.length then do
      let key ← slice param 0 12
      if key = ascii "CursorShape=" then do
        let byte ← index param 12
        some (self.emits handler ((cursorShape byte).map .setCursorShape).toList)
      else some self
    else some self
  else some self

def Performer.oscClipboard (self : Performer σ) (terminator : Str) (params : List Bytes) : Option (Performer σ) :=
  if params.length < 3 then some self
  else do
    let selection ← index params 1
    let clipboard := selection.head?.getD 99
    let data ← index params 2
    some (self.emit handler
      (if data = ascii "?" then .clipboardLoad clipboard terminator else .clipboardStore clipboard data))

def Performer.oscResetColorIndex (self : Performer σ) (params : List Bytes) : Option (Performer σ) :=
  if params.length = 1 then some (self.emits handler ((List.range 256).map .resetColor))
  else do
    let names ← sliceFrom params 1
    some (self.emits handler ((names.filterMap parseNumber).map .resetColor))

def Performer.oscPromptMarker (self : Performer σ) (params : List Bytes) : Option (Performer σ) := do
  let options ← sliceFrom params 1
  let marker ← PromptMarker.tryFrom options
  some (self.emits handler (marker.map .promptMarker).toList)

def Performer.oscTitledNotification (self : Performer σ) (params : List Bytes) : Option (Performer σ) :=
  if 4 ≤ params.length then do
    let kind ← index params 1
    if kind = ascii "notify" then
      let title := ((params[2]?.bind fromUtf8).map trim).filter (· ≠ [])
      let body := joinedText (params.drop 3)
      some (if body ≠ [] then self.emit handler (.pluggableNotification title body) else self)
    else some self
  else some self

/-- A whole image, the start of one in parts, a part of it, or its end. The argument is read with no check that it is there. -/
def Performer.oscInlineImage (self : Performer σ) (params : List Bytes) : Option (Performer σ) := do
  let argument ← index params 1
  if ascii "File=" <+: argument then do
    let metadata ← parseItermImageMetadata env.codec (env.imageIds self.images) params
    let self := { self with images := self.images + 1 }
    match params.getLast? with
    | none => some self
    | some last => do
      let parts ← splitOnce (· = 58) last
      match parts with
      | none => some self
      | some (_, data) => some (self.emits handler
          [.startItermImageReceiving metadata, .onItermImageDataReceived data, .endItermImageReceiving])
  else if ascii "MultipartFile=" <+: argument then do
    let metadata ← parseItermImageMetadata env.codec (env.imageIds self.images) params
    some ({ self with images := self.images + 1 }.emit handler (.startItermImageReceiving metadata))
  else if ascii "FilePart=" <+: argument then do
    let parts ← splitOnce (· = 61) argument
    match parts with
    | none => some self
    | some (_, data) => some (self.emit handler (.onItermImageDataReceived data))
  else if ascii "FileEnd" <+: argument then some (self.emit handler .endItermImageReceiving)
  else some self

def Performer.oscInBandGenerator (self : Performer σ) (params : List Bytes) : Performer σ :=
  if params[1]? = some (ascii "A") then self.emit handler .startInBandCommandOutput
  else if params[1]? = some (ascii "B") then self.emit handler (.endInBandCommandOutput true)
  else self

def Performer.oscWarp (self : Performer σ) (params : List Bytes) : Option (Performer σ) :=
  match (params[1]?.map fromUtf8Lossy).bind List.head? with
  | some 'd' =>
    match params[2]?.map fromUtf8Lossy with
    | none => some self
    | some data => some (self.handleDecodedData env handler (hexDecode (bytes data)))
  | some 'f' =>
    match params[2]?.map fromUtf8Lossy with
    | none => some self
    | some data => some (self.handleUnencodedHook handler (env.hookFromStr data))
  | some 'k' => self.handleKvMarker handler params
  | _ => some self

def Performer.updateCompletion (self : Performer σ) (marker : Bytes) (payload : Option Bytes) : Option (Performer σ) :=
  match fromUtf8 marker with
  | none => some self
  | some parameter =>
    match payload.map fromUtf8Lossy with
    | none => some self
    | some data => do
      let field ← byteSlice parameter 2 (byteLen parameter)
      some (if field = "description".toList then self.emit handler (.updateLastCompletionResult (.description data))
        else self)

def Performer.oscCompletions (self : Performer σ) (params : List Bytes) : Option (Performer σ) :=
  match params[1]? with
  | none => some self
  | some marker =>
    if marker = ascii "A" then
      match (params[2]?.map fromUtf8Lossy).bind CompletionsShellData.fromFormatType with
      | none => some self
      | some format => some (self.emit handler (.startCompletionsOutput format))
    else if marker = ascii "B" then some (self.emit handler .endCompletionsOutput)
    else if marker = ascii "C" then
      match params[2]?.map fromUtf8Lossy with
      | none => some self
      | some data => some (self.emit handler (.onCompletionResultReceived (.new data)))
    else if ascii "D?" <+: marker then self.updateCompletion handler marker params[2]?
    else if marker = ascii "P" then some (self.emit handler .sendCompletionsPrompt)
    else some self

def Performer.oscDispatch (self : Performer σ) (params : List Bytes) (bellTerminated : Bool) : Option (Performer σ) :=
  let terminator : Str := if bellTerminated then ['\x07'] else ['\x1b', '\\']
  if params = [] then some self
  else do
    let code ← index params 0
    if code = [] then some self
    else
      match OscCode.ofBytes code with
      | .title => self.oscTitle handler params
      | .colorIndex => self.oscColorIndex handler params
      | .notification => self.oscNotification handler params
      | .dynamicColor => self.oscDynamicColor handler terminator params
      | .cursorStyle => self.oscCursorStyle handler params
      | .clipboard => self.oscClipboard handler terminator params
      | .resetColorIndex => self.oscResetColorIndex handler params
      | .resetForeground => some (self.emit handler (.resetColor ColorIndex.foreground))
      | .resetBackground => some (self.emit handler (.resetColor ColorIndex.background))
      | .resetCursor => some (self.emit handler (.resetColor ColorIndex.cursor))
      | .promptMarker => self.oscPromptMarker handler params
      | .titledNotification => self.oscTitledNotification handler params
      | .inlineImage => self.oscInlineImage env handler params
      | .inBandGenerator => some (self.oscInBandGenerator handler params)
      | .warp => self.oscWarp env handler params
      | .resetGrid => some (self.emit handler .onResetGrid)
      | .completions => self.oscCompletions handler params
      | .unexpected => some self
      | .unknown => some self

inductive Csi where
  | insertBlank
  | moveUp
  | moveDown
  | repeatPreceding
  | moveForward
  | identifyTerminal (intermediate : Option UInt8)
  | moveBackward
  | gotoLine
  | moveDownAndCr
  | moveUpAndCr
  | gotoCol
  | clearTabs
  | goto
  | setModes (intermediate : Option UInt8)
  | moveForwardTabs
  | clearScreen
  | clearLine
  | insertBlankLines
  | unsetModes (intermediate : Option UInt8)
  | deleteLines
  | attributes
  | deviceStatus
  | deleteChars
  | requestMode (intermediate : Option UInt8)
  | setCursorStyle
  | reportXtversion
  | setScrollingRegion
  | scrollUp
  | saveCursorPosition
  | scrollDown
  | windowReport
  | restoreCursorPosition
  | setKeyboardFlags
  | pushKeyboardFlags
  | popKeyboardFlags
  | queryKeyboardFlags
  | eraseChars
  | moveBackwardTabs
  | unhandled
  deriving DecidableEq

def Csi.plain : List (Char × Csi) :=
  [('@', .insertBlank), ('A', .moveUp), ('B', .moveDown), ('e', .moveDown), ('b', .repeatPreceding), ('C', .moveForward),
    ('a', .moveForward), ('D', .moveBackward), ('d', .gotoLine), ('E', .moveDownAndCr), ('F', .moveUpAndCr),
    ('G', .gotoCol), ('\x60', .gotoCol), ('g', .clearTabs), ('H', .goto), ('f', .goto), ('I', .moveForwardTabs),
    ('J', .clearScreen), ('K', .clearLine), ('L', .insertBlankLines), ('M', .deleteLines), ('m', .attributes),
    ('n', .deviceStatus), ('P', .deleteChars), ('r', .setScrollingRegion), ('S', .scrollUp), ('s', .saveCursorPosition),
    ('T', .scrollDown), ('t', .windowReport), ('u', .restoreCursorPosition), ('X', .eraseChars),
    ('Z', .moveBackwardTabs)]

def Csi.ofAny (action : Char) (intermediate : Option UInt8) : Option Csi :=
  if action = 'c' then some (.identifyTerminal intermediate)
  else if action = 'h' then some (.setModes intermediate)
  else if action = 'l' then some (.unsetModes intermediate)
  else if action = 'p' then some (.requestMode intermediate)
  else none

/-- The sequences with one intermediate byte. The keyboard protocol is off on Windows. -/
def Csi.marked (windows : Bool) (action : Char) (intermediate : UInt8) : Csi :=
  let keyboard (csi : Csi) : Csi := if windows then .unhandled else csi
  match action, Char.ofNat intermediate.toNat with
  | 'q', ' ' => .setCursorStyle
  | 'q', '>' => .reportXtversion
  | 'u', '=' => keyboard .setKeyboardFlags
  | 'u', '>' => keyboard .pushKeyboardFlags
  | 'u', '<' => keyboard .popKeyboardFlags
  | 'u', '?' => keyboard .queryKeyboardFlags
  | _, _ => .unhandled

def Csi.ofAction (windows : Bool) (action : Char) (intermediate : Option UInt8) : Csi :=
  (Csi.ofAny action intermediate).getD
    (match intermediate with
    | none => (Csi.plain.lookup action).getD .unhandled
    | some intermediate => Csi.marked windows action intermediate)

def paramOr (params : List Param) (position : ℕ) (default : UInt16) : UInt16 :=
  ((params[position]?.map Param.first).filter (· ≠ 0)).getD default

def TabulationClearMode.ofParam : UInt16 → Option TabulationClearMode
  | 0 => some .current
  | 3 => some .all
  | _ => none

def ClearMode.ofParam : UInt16 → Option ClearMode
  | 0 => some .below
  | 1 => some .above
  | 2 => some .all
  | 3 => some .saved
  | _ => none

def LineClearMode.ofParam : UInt16 → Option LineClearMode
  | 0 => some .right
  | 1 => some .left
  | 2 => some .all
  | _ => none

/-- The style is none for the default one, and there is no result for an unknown one. -/
def cursorStyle (id : UInt16) : Option (Option CursorStyle) :=
  let blinking : Bool := id % 2 = 1
  match id with
  | 0 => some none
  | 1 => some (some ⟨.block, blinking⟩)
  | 2 => some (some ⟨.block, blinking⟩)
  | 3 => some (some ⟨.underline, blinking⟩)
  | 4 => some (some ⟨.underline, blinking⟩)
  | 5 => some (some ⟨.beam, blinking⟩)
  | 6 => some (some ⟨.beam, blinking⟩)
  | _ => none

def windowReport : UInt16 → List (HandlerCall δ)
  | 14 => [.textAreaSizePixels]
  | 18 => [.textAreaSizeChars]
  | 22 => [.pushTitle]
  | 23 => [.popTitle]
  | _ => []

def Performer.setModes (self : Performer σ) (intermediate : Option UInt8) (params : List Param) : Performer σ :=
  params.foldl (fun self param =>
    match Mode.fromPrimitive intermediate param.first with
    | some mode => { self.emit handler (.setMode mode) with syncOutput := self.syncOutput || mode = .syncOutput }
    | none => self) self

/-- The end of a synchronized update is found in its buffer and not here. -/
def Performer.unsetModes (self : Performer σ) (intermediate : Option UInt8) (params : List Param) : Performer σ :=
  params.foldl (fun self param =>
    match Mode.fromPrimitive intermediate param.first with
    | some mode => if mode = .syncOutput then self else self.emit handler (.unsetMode mode)
    | none => self) self

def Performer.requestMode (self : Performer σ) (mode : Option Mode) : Performer σ :=
  if mode = some .syncOutput then
    { self with written := self.written ++ ascii "\x1b[?2026;" ++ ascii (if self.syncOutput then "1" else "2") ++ ascii "$y" }
  else self

def Performer.terminalAttributes (self : Performer σ) (params : List Param) : Option (Performer σ) :=
  if params = [] then some (self.emit handler (.terminalAttribute .reset))
  else (attrsFromSgrParameters params).map fun attrs => self.emits handler ((attrs.filterMap id).map .terminalAttribute)

def Performer.csiDispatch (self : Performer σ) (params : List Param) (intermediates : Bytes)
    (hasIgnoredIntermediates : Bool) (action : Char) : Option (Performer σ) :=
  if hasIgnoredIntermediates ∨ 2 < intermediates.length then some self
  else
    let count := (paramOr params 0 1).toNat
    let call (call : HandlerCall δ) : Option (Performer σ) := some (self.emit handler call)
    match Csi.ofAction env.windows action intermediates.head? with
    | .insertBlank => call (.insertBlank count)
    | .moveUp => call (.moveUp count)
    | .moveDown => call (.moveDown count)
    | .repeatPreceding =>
      match self.precedingChar with
      | some c => some (self.emits handler (List.replicate count (.input c)))
      | none => some self
    | .moveForward => call (.moveForward count)
    | .identifyTerminal intermediate =>
      if paramOr params 0 0 = 0 then call (.identifyTerminal (intermediate.map fun i => Char.ofNat i.toNat)) else some self
    | .moveBackward => call (.moveBackward count)
    | .gotoLine => do call (.gotoLine (← sub count 1))
    | .moveDownAndCr => call (.moveDownAndCr count)
    | .moveUpAndCr => call (.moveUpAndCr count)
    | .gotoCol => do call (.gotoCol (← sub count 1))
    | .clearTabs => some (self.emits handler ((TabulationClearMode.ofParam (paramOr params 0 0)).map .clearTabs).toList)
    | .goto => do
      let line ← sub count 1
      let col ← sub (paramOr params 1 1).toNat 1
      call (.goto line col)
    | .setModes intermediate => some (self.setModes handler intermediate params)
    | .moveForwardTabs => call (.moveForwardTabs (paramOr params 0 1))
    | .clearScreen => some (self.emits handler ((ClearMode.ofParam (paramOr params 0 0)).map .clearScreen).toList)
    | .clearLine => some (self.emits handler ((LineClearMode.ofParam (paramOr params 0 0)).map .clearLine).toList)
    | .insertBlankLines => call (.insertBlankLines count)
    | .unsetModes intermediate => some (self.unsetModes handler intermediate params)
    | .deleteLines => call (.deleteLines count)
    | .attributes => self.terminalAttributes handler params
    | .deviceStatus => call (.deviceStatus (paramOr params 0 0).toNat)
    | .deleteChars => call (.deleteChars count)
    | .requestMode intermediate => some (self.requestMode (Mode.fromPrimitive intermediate (paramOr params 0 0)))
    | .setCursorStyle => some (self.emits handler ((cursorStyle (paramOr params 0 0)).map .setCursorStyle).toList)
    | .reportXtversion => call .reportXtversion
    | .setScrollingRegion =>
      call (.setScrollingRegion count (((params[1]?.map Param.first).filter (· ≠ 0)).map UInt16.toNat))
    | .scrollUp => call (.scrollUp count)
    | .saveCursorPosition => call .saveCursorPosition
    | .scrollDown => call (.scrollDown count)
    | .windowReport => some (self.emits handler (windowReport (paramOr params 0 1)))
    | .restoreCursorPosition => call .restoreCursorPosition
    | .setKeyboardFlags =>
      match KeyboardModesApplyBehavior.fromKittyApplyMode (paramOr params 1 1) with
      | none => some self
      | some apply => call (.setKeyboardEnhancementFlags (keyboardModes (paramOr params 0 0)) apply)
    | .pushKeyboardFlags => call (.pushKeyboardEnhancementFlags (keyboardModes (paramOr params 0 0)))
    | .popKeyboardFlags => call (.popKeyboardEnhancementFlags (paramOr params 0 1))
    | .queryKeyboardFlags => call .queryKeyboardEnhancementFlags
    | .eraseChars => call (.eraseChars count)
    | .moveBackwardTabs => call (.moveBackwardTabs (paramOr params 0 1))
    | .unhandled => some self

inductive Event where
  | print (c : Char)
  | execute (byte : UInt8)
  | hook (params : List Param) (intermediates : Bytes) (ignore : Bool) (c : Char)
  | put (byte : UInt8)
  | unhook
  | oscDispatch (params : List Bytes) (bellTerminated : Bool)
  | csiDispatch (params : List Param) (intermediates : Bytes) (hasIgnoredIntermediates : Bool) (action : Char)
  | escDispatch (intermediates : Bytes) (ignore : Bool) (byte : UInt8)
  | apcStart
  | apcPut (byte : UInt8)
  | apcEnd
  deriving DecidableEq

/-- One event. A panic has no result. -/
def Performer.perform (self : Performer σ) : Event → Option (Performer σ)
  | .print c => some (self.print handler c)
  | .execute byte => some (self.execute handler byte)
  | .hook params intermediates _ c => some (self.hook env params intermediates c)
  | .put byte => some (self.put byte)
  | .unhook => some (self.unhook env handler)
  | .oscDispatch params bellTerminated => self.oscDispatch env handler params bellTerminated
  | .csiDispatch params intermediates hasIgnored action => self.csiDispatch env handler params intermediates hasIgnored action
  | .escDispatch intermediates _ byte => some (self.escDispatch handler intermediates byte)
  | .apcStart => some self.apcStart
  | .apcPut byte => some (self.apcPut byte)
  | .apcEnd => self.apcEnd env handler

def Performer.run (self : Performer σ) (events : List Event) : Option (Performer σ) :=
  events.foldlM (Performer.perform env handler) self

end Warp.Ansi
