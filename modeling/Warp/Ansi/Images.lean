import Warp.Ansi.Color

namespace Warp.Ansi

open Checked Str

inductive ITermImageDimensionUnit where
  | cell
  | pixel
  | percent
  deriving DecidableEq

structure ITermImageMetadata where
  id : UInt32
  desiredWidth : Option (ℕ × ITermImageDimensionUnit)
  desiredHeight : Option (ℕ × ITermImageDimensionUnit)
  preserveAspectRatio : Bool
  name : Str
  inline : Bool
  deriving DecidableEq

def ITermImageMetadata.default (id : UInt32) : ITermImageMetadata :=
  ⟨id, none, none, true, "Unnamed file".toList, false⟩

structure ImageCodec where
  decodeBase64 : Bytes → Option Bytes
  fileName : Str → Option Str

def parseItermImageDimensions (dimension : Bytes) : Option (Option (ℕ × ITermImageDimensionUnit)) :=
  if ascii "px" <:+ dimension then do
    let stop ← sub dimension.length 2
    let value ← sliceTo dimension stop
    some ((parseU32 value).map (·, .pixel))
  else if ascii "%" <:+ dimension then do
    let stop ← sub dimension.length 1
    let value ← sliceTo dimension stop
    some ((parseU32 value).map (min · 100, .percent))
  else some ((parseU32 dimension).map (·, .cell))

def ImageCodec.name (codec : ImageCodec) (value : Bytes) : Option Str :=
  ((codec.decodeBase64 value).bind fromUtf8).bind codec.fileName

def isTrue (value : Bytes) : Bool := value = ascii "1" || value = ascii "true"

def ITermImageMetadata.set (metadata : ITermImageMetadata) (codec : ImageCodec) (key value : Bytes) :
    Option ITermImageMetadata :=
  if key = ascii "width" then (parseItermImageDimensions value).map fun width => { metadata with desiredWidth := width }
  else if key = ascii "height" then
    (parseItermImageDimensions value).map fun height => { metadata with desiredHeight := height }
  else if key = ascii "preserveAspectRatio" then some { metadata with preserveAspectRatio := isTrue value }
  else if key = ascii "name" then some { metadata with name := (codec.name value).getD metadata.name }
  else if key = ascii "inline" then some { metadata with inline := isTrue value }
  else some metadata

/-- The first argument has the kind of the message before it, and the data of a single message follow a colon. -/
def ITermImageMetadata.withParam (codec : ImageCodec) (metadata : ITermImageMetadata) (param : Bytes) :
    Option ITermImageMetadata :=
  (splitOnce (· = 61) param).bind fun
    | none => some metadata
    | some (key, value) =>
      let argument :=
        if key = ascii "File" ∨ key = ascii "MultipartFile" then splitOnce (· = 61) value else some (some (key, value))
      argument.bind fun
        | none => some metadata
        | some (key, value) => (splitOnce (· = 58) value).bind fun data =>
          metadata.set codec key ((data.map Prod.fst).getD value)

def parseItermImageMetadata (codec : ImageCodec) (id : UInt32) (params : List Bytes) : Option ITermImageMetadata :=
  params.foldlM (ITermImageMetadata.withParam codec) (.default id)

theorem parseItermImageDimensions_isSome (dimension : Bytes) : (parseItermImageDimensions dimension).isSome := by
  unfold parseItermImageDimensions
  refine ite_isSome (fun pixels => ?_) fun _ => ite_isSome (fun percent => ?_) fun _ => rfl
  · have long : 2 ≤ dimension.length := pixels.length_le
    rw [sub_eq long]
    dsimp only [bind, Option.bind]
    rw [sliceTo_eq (Nat.sub_le _ _)]
    rfl
  · have long : 1 ≤ dimension.length := percent.length_le
    rw [sub_eq long]
    dsimp only [bind, Option.bind]
    rw [sliceTo_eq (Nat.sub_le _ _)]
    rfl

theorem ITermImageMetadata.set_isSome (metadata : ITermImageMetadata) (codec : ImageCodec) (key value : Bytes) :
    (metadata.set codec key value).isSome := by
  unfold ITermImageMetadata.set
  have dimensions := parseItermImageDimensions_isSome value
  refine ite_isSome (fun _ => ?_) fun _ => ite_isSome (fun _ => ?_) fun _ => ite_isSome (fun _ => rfl) fun _ =>
    ite_isSome (fun _ => rfl) fun _ => ite_isSome (fun _ => rfl) fun _ => rfl
  · rwa [Option.isSome_map]
  · rwa [Option.isSome_map]

theorem ITermImageMetadata.withParam_isSome (codec : ImageCodec) (metadata : ITermImageMetadata) (param : Bytes) :
    (metadata.withParam codec param).isSome := by
  apply bind_isSome (splitOnce_isSome _ param)
  rintro (_ | ⟨key, value⟩) _
  · rfl
  apply bind_isSome (ite_isSome (fun _ => splitOnce_isSome _ value) fun _ => rfl)
  rintro (_ | ⟨key, value⟩) _
  · rfl
  exact bind_isSome (splitOnce_isSome _ value) fun _ _ => metadata.set_isSome codec _ _

theorem parseItermImageMetadata_isSome (codec : ImageCodec) (id : UInt32) (params : List Bytes) :
    (parseItermImageMetadata codec id params).isSome := foldlM_isSome (ITermImageMetadata.withParam_isSome codec) params _

inductive KittyPixelDataFormat where
  | rgb24Bit
  | rgba32Bit
  | png
  deriving DecidableEq

inductive KittyTransmissionMedium where
  | direct
  | simpleFile
  | temporaryFile
  | sharedMemoryObject
  deriving DecidableEq

inductive KittyResponseVerbosity where
  | all
  | errorsOnly
  | none
  deriving DecidableEq

inductive CursorMovementPolicy where
  | moveCursor
  | doNotMoveCursor
  deriving DecidableEq

inductive KittyPlacementAction where
  | storeOnly
  | storeAndDisplay
  | displayStoredImage
  | querySupport
  | delete
  | unknown
  deriving DecidableEq

inductive DeleteAction where
  | deleteAll
  | deleteById
  deriving DecidableEq

structure KittyControlData where
  pixelDataFormat : KittyPixelDataFormat := .rgba32Bit
  width : ℕ := 0
  height : ℕ := 0
  compressed : Bool := false
  transmissionMedium : KittyTransmissionMedium := .direct
  furtherChunks : Bool := false
  imageId : Option ℕ := none
  placementId : Option ℕ := none
  placementAction : KittyPlacementAction := .storeOnly
  verbosity : KittyResponseVerbosity := .all
  zIndex : ℤ := 0
  deleteAction : DeleteAction := .deleteAll
  deletePlacementsOnly : Bool := true
  rows : Option ℕ := none
  cols : Option ℕ := none
  cursorMovementPolicy : CursorMovementPolicy := .moveCursor
  unicodePlaceholder : Bool := false
  deriving DecidableEq

structure KittyChunk where
  controlData : KittyControlData
  payload : Bytes
  deriving DecidableEq

def spelled {α : Type} (table : List (String × α)) (fallback : α) (value : Bytes) : α :=
  ((table.map fun (spelling, meaning) => (ascii spelling, meaning)).lookup value).getD fallback

def KittyPixelDataFormat.ofBytes : Bytes → KittyPixelDataFormat :=
  spelled [("24", .rgb24Bit), ("32", .rgba32Bit), ("100", .png)] .rgba32Bit

def KittyTransmissionMedium.ofBytes : Bytes → KittyTransmissionMedium :=
  spelled [("d", .direct), ("f", .simpleFile), ("t", .temporaryFile), ("s", .sharedMemoryObject)] .direct

def KittyPlacementAction.ofBytes : Bytes → KittyPlacementAction :=
  spelled [("t", .storeOnly), ("T", .storeAndDisplay), ("p", .displayStoredImage), ("q", .querySupport), ("d", .delete)]
    .unknown

def KittyResponseVerbosity.ofBytes : Bytes → KittyResponseVerbosity :=
  spelled [("0", .all), ("1", .errorsOnly), ("2", .none)] .all

def CursorMovementPolicy.ofBytes : Bytes → CursorMovementPolicy :=
  spelled [("0", .moveCursor), ("1", .doNotMoveCursor)] .moveCursor

def isAsciiUppercase (byte : UInt8) : Bool := 65 ≤ byte && byte ≤ 90

def toAsciiLowercase (byte : UInt8) : UInt8 := if isAsciiUppercase byte then byte + 32 else byte

def DeleteAction.ofBytes (value : Bytes) : DeleteAction :=
  spelled [("a", .deleteAll), ("i", .deleteById)] .deleteAll (value.map toAsciiLowercase)

def parseI32 (input : Bytes) : Option (Option ℤ) :=
  if input = [] then some none
  else do
    let first ← index input 0
    let digits ← (if first = 45 then sliceFrom input 1 else some input : Option Bytes)
    some ((parseDecimal (2 ^ 31 - 1) digits).map fun num : ℕ => if first = 45 then -(num : ℤ) else (num : ℤ))

/-- The control data with one of the keys whose value is read without a sign. -/
def KittyControlData.set (self : KittyControlData) (key value : Bytes) : KittyControlData :=
  if key = ascii "f" then { self with pixelDataFormat := .ofBytes value }
  else if key = ascii "s" then { self with width := (parseU32 value).getD self.width }
  else if key = ascii "v" then { self with height := (parseU32 value).getD self.height }
  else if key = ascii "o" then { self with compressed := value = ascii "z" }
  else if key = ascii "m" then { self with furtherChunks := value = ascii "1" }
  else if key = ascii "t" then { self with transmissionMedium := .ofBytes value }
  else if key = ascii "i" then { self with imageId := (parseU32 value).or self.imageId }
  else if key = ascii "p" then { self with placementId := (parseU32 value).or self.placementId }
  else if key = ascii "a" then { self with placementAction := .ofBytes value }
  else if key = ascii "q" then { self with verbosity := .ofBytes value }
  else if key = ascii "d" then
    { self with
      deletePlacementsOnly := if value.all isAsciiUppercase then false else self.deletePlacementsOnly
      deleteAction := .ofBytes value }
  else if key = ascii "c" then { self with cols := (parseU32 value).or self.cols }
  else if key = ascii "r" then { self with rows := (parseU32 value).or self.rows }
  else if key = ascii "C" then { self with cursorMovementPolicy := .ofBytes value }
  else if key = ascii "U" then { self with unicodePlaceholder := value = ascii "1" }
  else self

def KittyControlData.withParam (self : KittyControlData) (param : Bytes) : Option KittyControlData :=
  (splitOnce (· = 61) param).bind fun
    | none => some self
    | some (key, value) =>
      if key = ascii "z" then (parseI32 value).map fun zIndex => { self with zIndex := zIndex.getD self.zIndex }
      else some (self.set key value)

def parseKittyControlData (controlData : Bytes) : Option KittyControlData :=
  (controlData.splitOn 44).foldlM KittyControlData.withParam {}

def parseKittyChunk (chunk : Bytes) : Option KittyChunk := do
  let parts ← splitOnce (· = 59) chunk
  let (controlData, payload) := parts.getD (chunk, [])
  let controlData ← parseKittyControlData controlData
  some ⟨controlData, payload⟩

theorem parseI32_isSome (input : Bytes) : (parseI32 input).isSome := by
  apply ite_isSome (fun _ => rfl)
  intro nonempty
  have long := List.length_pos_iff.mpr nonempty
  rw [index_eq long]
  apply bind_isSome rfl
  intro first _
  apply bind_isSome
  · exact ite_isSome (fun _ => by rw [sliceFrom_eq long]; rfl) fun _ => rfl
  · exact fun _ _ => rfl

theorem KittyControlData.withParam_isSome (data : KittyControlData) (param : Bytes) : (data.withParam param).isSome := by
  apply bind_isSome (splitOnce_isSome _ param)
  rintro (_ | ⟨key, value⟩) _
  · rfl
  apply ite_isSome
  · intro _
    rw [Option.isSome_map]
    exact parseI32_isSome value
  · exact fun _ => rfl

theorem parseKittyControlData_isSome (controlData : Bytes) : (parseKittyControlData controlData).isSome :=
  foldlM_isSome KittyControlData.withParam_isSome _ _

theorem parseKittyChunk_isSome (chunk : Bytes) : (parseKittyChunk chunk).isSome :=
  bind_isSome (splitOnce_isSome _ chunk) fun _ _ => bind_isSome (parseKittyControlData_isSome _) fun _ _ => rfl

end Warp.Ansi
