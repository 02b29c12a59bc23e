import Warp.Ansi.Color

namespace Warp.Ansi

open Checked
open Grid (Color NamedColor)

structure Param where
  first : UInt16
  rest : List UInt16
  deriving DecidableEq

def Param.values (self : Param) : List UInt16 := self.first :: self.rest

inductive CursorShape where
  | block
  | underline
  | beam
  | hollowBlock
  | hidden
  deriving DecidableEq

structure CursorStyle where
  shape : CursorShape
  blinking : Bool
  deriving DecidableEq

inductive Mode where
  | cursorKeys
  | deccolm
  | insert
  | origin
  | lineWrap
  | blinkingCursor
  | lineFeedNewLine
  | showCursor
  | reportMouseClicks
  | reportCellMouseMotion
  | reportAllMouseMotion
  | reportFocusInOut
  | utf8Mouse
  | sgrMouse
  | alternateScroll
  | urgencyHints
  | swapScreen (saveCursorAndClearScreen : Bool)
  | bracketedPaste
  | syncOutput
  deriving DecidableEq

def Mode.privateModes : List (UInt16 × Mode) :=
  [(1, .cursorKeys), (3, .deccolm), (6, .origin), (7, .lineWrap), (12, .blinkingCursor), (25, .showCursor),
    (1000, .reportMouseClicks), (1002, .reportCellMouseMotion), (1003, .reportAllMouseMotion), (1004, .reportFocusInOut),
    (1005, .utf8Mouse), (1006, .sgrMouse), (1007, .alternateScroll), (1042, .urgencyHints), (47, .swapScreen false),
    (1049, .swapScreen true), (2004, .bracketedPaste), (2026, .syncOutput)]

def Mode.publicModes : List (UInt16 × Mode) := [(4, .insert), (20, .lineFeedNewLine)]

/-- The private modes have a question mark before them, and zero is no mode. -/
def Mode.fromPrimitive (intermediate : Option UInt8) (num : UInt16) : Option Mode :=
  if num = 0 then none
  else if intermediate = some 63 then Mode.privateModes.lookup num
  else if intermediate = none then Mode.publicModes.lookup num
  else none

inductive LineClearMode where
  | right
  | left
  | all
  deriving DecidableEq

inductive ClearMode where
  | below
  | above
  | all
  | saved
  deriving DecidableEq

inductive TabulationClearMode where
  | current
  | all
  deriving DecidableEq

inductive CharsetIndex where
  | g0
  | g1
  | g2
  | g3
  deriving DecidableEq

inductive StandardCharset where
  | ascii
  | specialCharacterAndusizeDrawing
  deriving DecidableEq

inductive Attr where
  | reset
  | bold
  | dim
  | italic
  | underline
  | doubleUnderline
  | blinkSlow
  | blinkFast
  | reverse
  | hidden
  | strike
  | cancelBold
  | cancelBoldDim
  | cancelItalic
  | cancelUnderline
  | cancelBlink
  | cancelReverse
  | cancelHidden
  | cancelStrike
  | foreground (color : Color)
  | background (color : Color)
  deriving DecidableEq

def u8TryFrom (value : UInt16) : Option UInt8 := if value < 256 then some (.ofNat value.toNat) else none

/-- The color, and how many of the values were read for it. -/
def parseSgrColor : List UInt16 → Option Color × ℕ
  | 2 :: values =>
    match values with
    | [] => (none, 1)
    | r :: values =>
      match u8TryFrom r, values with
      | none, _ => (none, 2)
      | some _, [] => (none, 2)
      | some r, g :: values =>
        match u8TryFrom g, values with
        | none, _ => (none, 3)
        | some _, [] => (none, 3)
        | some g, b :: _ => ((u8TryFrom b).map fun b => .spec ⟨r, g, b, 0xFF⟩, 4)
  | 5 :: values =>
    match values with
    | [] => (none, 1)
    | index :: _ => ((u8TryFrom index).map .indexed, 2)
  | [] => (none, 0)
  | _ :: _ => (none, 1)

def basicColors : List NamedColor := [.black, .red, .green, .yellow, .blue, .magenta, .cyan, .white]

def brightColors : List NamedColor :=
  [.brightBlack, .brightRed, .brightGreen, .brightYellow, .brightBlue, .brightMagenta, .brightCyan, .brightWhite]

def colorCodes (first : UInt16) (colors : List NamedColor) (attr : Color → Attr) : List (UInt16 × Attr) :=
  colors.zipIdx.map fun (color, offset) => (first + .ofNat offset, attr (.named color))

def simpleAttrs : List (UInt16 × Attr) :=
  [(0, .reset), (1, .bold), (2, .dim), (3, .italic), (5, .blinkSlow), (6, .blinkFast), (7, .reverse),
    (8, .hidden), (9, .strike), (21, .cancelBold), (22, .cancelBoldDim), (23, .cancelItalic), (24, .cancelUnderline),
    (25, .cancelBlink), (27, .cancelReverse), (28, .cancelHidden), (29, .cancelStrike),
    (39, .foreground (.named .foreground)), (49, .background (.named .background))] ++
    colorCodes 30 basicColors .foreground ++ colorCodes 40 basicColors .background ++
    colorCodes 90 brightColors .foreground ++ colorCodes 100 brightColors .background

/-- A color in the subparameters of one parameter, where a color space may stand between the kind and the components. -/
def subparameterColor (params : List UInt16) : Option (Option Color) := do
  let rgbStart := if 4 < params.length then 2 else 1
  let rgb ← sliceFrom params rgbStart
  let kind ← index params 0
  some (parseSgrColor (kind :: rgb)).1

def colorAttr (code : UInt16) : Color → Attr := if code = 38 then .foreground else .background

/-- The attribute of one parameter, and how many of the later ones it uses up. -/
def attrFrom (param : Param) (later : List Param) : Option (Option Attr × ℕ) :=
  if param.first = 38 ∨ param.first = 48 then
    match param.rest with
    | [] =>
      let (color, used) := parseSgrColor (later.map Param.first)
      some (color.map (colorAttr param.first), used)
    | params => (subparameterColor params).map fun color => (color.map (colorAttr param.first), 0)
  else if param.first = 4 then
    some (match param.rest with
      | [0] => some .cancelUnderline
      | [2] => some .doubleUnderline
      | _ => some .underline, 0)
  else if param.rest = [] then some (simpleAttrs.lookup param.first, 0)
  else some (none, 0)

def attrsFromSgrParameters : List Param → Option (List (Option Attr))
  | [] => some []
  | param :: later => do
    let (attr, used) ← attrFrom param later
    let attrs ← attrsFromSgrParameters (later.drop used)
    some (attr :: attrs)
  termination_by params => params.length
  decreasing_by
    rw [List.length_drop, List.length_cons]
    omega

theorem subparameterColor_isSome {params : List UInt16} (nonempty : params ≠ []) : (subparameterColor params).isSome := by
  have long := List.length_pos_iff.mpr nonempty
  have start : (if 4 < params.length then 2 else 1) ≤ params.length := by split <;> omega
  unfold subparameterColor
  dsimp only
  rw [sliceFrom_eq start, index_eq long]
  rfl

theorem attrFrom_isSome (param : Param) (later : List Param) : (attrFrom param later).isSome := by
  unfold attrFrom
  apply ite_isSome
  · intro _
    cases rest : param.rest with
    | nil => rfl
    | cons value values =>
      dsimp only
      rw [Option.isSome_map]
      exact subparameterColor_isSome (List.cons_ne_nil _ _)
  · intro _
    exact ite_isSome (fun _ => rfl) fun _ => ite_isSome (fun _ => rfl) fun _ => rfl

theorem attrsFromSgrParameters_isSome (params : List Param) : (attrsFromSgrParameters params).isSome := by
  induction params using attrsFromSgrParameters.induct with
  | case1 =>
    unfold attrsFromSgrParameters
    rfl
  | case2 param later ih =>
    unfold attrsFromSgrParameters
    apply bind_isSome (attrFrom_isSome param later)
    rintro ⟨attr, used⟩ _
    exact bind_isSome (ih used) fun _ _ => rfl

inductive PromptKind where
  | initial
  | right
  deriving DecidableEq

inductive PromptMarker where
  | startPrompt (kind : PromptKind)
  | endPrompt
  deriving DecidableEq

def PromptKind.tryFrom (value : Bytes) : Option PromptKind :=
  if value = ascii "i" then some .initial else if value = ascii "r" then some .right else none

/-- One option: a malformed one is an error, and an unknown one is ignored. -/
def promptOption (kind : PromptKind) (param : Bytes) : Option (Option PromptKind) :=
  match param.findIdx? (· = 61) with
  | none => some none
  | some eqIndex =>
    if param.length ≤ eqIndex + 1 then some none
    else do
      let key ← sliceTo param eqIndex
      let value ← sliceFrom param (eqIndex + 1)
      some (some (if key = ascii "k" then (PromptKind.tryFrom value).getD kind else kind))

def promptOptions (kind : PromptKind) : List Bytes → Option (Option PromptKind)
  | [] => some (some kind)
  | param :: params => early (promptOption kind param) fun kind => promptOptions kind params

/-- A marker, or none for parameters that are unknown or malformed. -/
def PromptMarker.tryFrom (params : List Bytes) : Option (Option PromptMarker) :=
  match params.head? with
  | none => some none
  | some first =>
    if first = ascii "A" then some (some (.startPrompt .initial))
    else if first = ascii "B" then some (some .endPrompt)
    else if first = ascii "P" then do
      let options ← sliceFrom params 1
      let kind ← promptOptions .initial options
      some (kind.map .startPrompt)
    else some none

theorem promptOption_isSome (kind : PromptKind) (param : Bytes) : (promptOption kind param).isSome := by
  unfold promptOption
  cases found : param.findIdx? (· = 61) with
  | none => rfl
  | some eqIndex =>
    have bound : eqIndex < param.length := (List.findIdx?_eq_some_iff_getElem.mp found).1
    apply ite_isSome (fun _ => rfl)
    intro _
    rw [sliceTo_eq (Nat.le_of_lt bound), sliceFrom_eq bound]
    rfl

theorem promptOptions_isSome (kind : PromptKind) (params : List Bytes) : (promptOptions kind params).isSome := by
  induction params generalizing kind with
  | nil => rfl
  | cons param params ih => exact early_isSome (promptOption_isSome kind param) ih

theorem PromptMarker.tryFrom_isSome (params : List Bytes) : (PromptMarker.tryFrom params).isSome := by
  unfold PromptMarker.tryFrom
  cases params with
  | nil => rfl
  | cons first params =>
    refine ite_isSome (fun _ => rfl) fun _ => ite_isSome (fun _ => rfl) fun _ => ite_isSome (fun _ => ?_) fun _ => rfl
    rw [sliceFrom_eq (Nat.succ_pos _)]
    exact bind_isSome rfl fun _ _ => bind_isSome (promptOptions_isSome _ _) fun _ _ => rfl

end Warp.Ansi
