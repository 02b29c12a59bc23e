import Mathlib.Tactic

namespace Warp.Grid

inductive NamedColor where
  | black | red | green | yellow | blue | magenta | cyan | white
  | brightBlack | brightRed | brightGreen | brightYellow | brightBlue | brightMagenta | brightCyan | brightWhite
  | foreground | background | cursor
  | dimBlack | dimRed | dimGreen | dimYellow | dimBlue | dimMagenta | dimCyan | dimWhite
  | brightForeground | dimForeground
deriving DecidableEq

structure ColorU where
  r : UInt8
  g : UInt8
  b : UInt8
  a : UInt8
deriving DecidableEq

inductive Color where
  | named (color : NamedColor)
  | spec (color : ColorU)
  | indexed (index : UInt8)
deriving DecidableEq

abbrev Flags := BitVec 16

namespace Flags

def empty : Flags := 0
def inverse : Flags := 0x0001
def bold : Flags := 0x0002
def italic : Flags := 0x0004
def underline : Flags := 0x0008
def wrapline : Flags := 0x0010
def wideChar : Flags := 0x0020
def wideCharSpacer : Flags := 0x0040
def dim : Flags := 0x0080
def hidden : Flags := 0x0100
def strikeout : Flags := 0x0200
def leadingWideCharSpacer : Flags := 0x0400
def doubleUnderline : Flags := 0x0800
def hasCursor : Flags := 0x1000

def intersects (self other : Flags) : Bool := self &&& other != 0

def contains (self other : Flags) : Bool := self &&& other == other

end Flags

inductive CharOrStr where
  | char (c : Char)
  | str (s : String)
deriving DecidableEq

def CharOrStr.bytes : CharOrStr → List UInt8
  | .char c => String.utf8EncodeChar c
  | .str s => s.toList.flatMap String.utf8EncodeChar

def CharOrStr.chars : CharOrStr → List Char
  | .char c => [c]
  | .str s => s.toList

structure Cell.EndOfPromptMarker where
  hasExtraTrailingNewline : Bool
deriving DecidableEq

structure CellExtra where
  cellWithZeroWidth : Option String
  endOfPrompt : Option Cell.EndOfPromptMarker
deriving DecidableEq

structure Cell where
  c : Char
  fg : Color
  bg : Color
  flags : Flags
  extra : Option CellExtra
deriving DecidableEq

namespace Cell

def defaultChar : Char := '\x00'

def maxGraphemeBytes : ℕ := 256

def default : Cell := ⟨defaultChar, .named .foreground, .named .background, .empty, none⟩

def contentWithZerowidth (self : Cell) : Option String := self.extra.bind CellExtra.cellWithZeroWidth

def rawContent (self : Cell) : CharOrStr :=
  match self.contentWithZerowidth with
  | some content => .str content
  | none => .char self.c

def pushZerowidth (self : Cell) (c : Char) : Cell :=
  let self := if self.c = defaultChar then { self with c := ' ' } else self
  let extra := self.extra.getD ⟨none, none⟩
  match extra.cellWithZeroWidth with
  | some zerowidth =>
    if zerowidth.utf8ByteSize + c.utf8Size > maxGraphemeBytes then { self with extra := some extra }
    else { self with extra := some { extra with cellWithZeroWidth := some (zerowidth.push c) } }
  | none => { self with extra := some { extra with cellWithZeroWidth := some (String.ofList [self.c, c]) } }

def endOfPromptMarker (self : Cell) : Option EndOfPromptMarker := self.extra.bind CellExtra.endOfPrompt

def markEndOfPrompt (self : Cell) (hasExtraTrailingNewline : Bool) : Cell :=
  let extra := self.extra.getD ⟨none, none⟩
  { self with extra := some { extra with endOfPrompt := some ⟨hasExtraTrailingNewline⟩ } }

def isEmpty (self : Cell) : Bool :=
  self.c == defaultChar && self.bg == .named .background && self.fg == .named .foreground &&
    !self.flags.intersects (.inverse ||| .underline ||| .doubleUnderline ||| .strikeout ||| .wrapline |||
      .wideCharSpacer ||| .leadingWideCharSpacer ||| .hasCursor)

def reset (template : Cell) : Cell := { default with bg := template.bg }

end Cell

/-- `occ` bounds the cells that changed since the last reset. -/
structure Row where
  inner : List Cell
  occ : ℕ
deriving DecidableEq

namespace Row

/-- A row without columns is asserted against, and undefined behaviour without the assertion. -/
def new (columns : ℕ) : Option Row := if columns = 0 then none else some ⟨List.replicate columns .default, 0⟩

def dirtyCells (self : Row) : Option (List Cell) :=
  if self.occ ≤ self.inner.length then some (self.inner.take self.occ) else none

def reset (self : Row) (template : Cell) : Option Row := do
  let last ← self.inner.getLast?
  let occ := if last.bg ≠ template.bg then self.inner.length else self.occ
  if occ ≤ self.inner.length then
    some ⟨List.replicate occ (Cell.reset template) ++ self.inner.drop occ, 0⟩
  else none

def update (self : Row) (index : ℕ) (change : Cell → Cell) : Option Row := do
  let cell ← self.inner[index]?
  some ⟨self.inner.set index (change cell), max self.occ (index + 1)⟩

def updateLast (self : Row) (change : Cell → Cell) : Option Row := do
  let cell ← self.inner.getLast?
  some ⟨self.inner.dropLast ++ [change cell], self.inner.length⟩

end Row

end Warp.Grid
