import Warp.Lib.ByteSlice
import Warp.SumTree.Reach

namespace Warp.Editor.Content

open SumTree Str List

structure Point where
  row : ℕ
  column : ℕ
deriving DecidableEq

namespace Point

instance : Add Point where
  add self other := if other.row = 0 then ⟨self.row, self.column + other.column⟩ else ⟨self.row + other.row, other.column⟩

/-- Rows are compared before columns. -/
instance : LinearOrder Point :=
  LinearOrder.lift' (fun point => toLex (point.row, point.column)) fun first second same => by
    injection same with row column
    cases first
    cases second
    exact congrArg₂ mk row column

variable {first second : Point}

theorem add_def (self other : Point) : self + other =
    if other.row = 0 then ⟨self.row, self.column + other.column⟩ else ⟨self.row + other.row, other.column⟩ := rfl

theorem le_iff : first ≤ second ↔ first.row < second.row ∨ first.row = second.row ∧ first.column ≤ second.column :=
  Prod.Lex.le_iff

theorem lt_iff : first < second ↔ first.row < second.row ∨ first.row = second.row ∧ first.column < second.column :=
  Prod.Lex.lt_iff

theorem le_add (self other : Point) : self ≤ self + other := by
  rw [add_def, le_iff]
  by_cases sameRow : other.row = 0
  · rw [if_pos sameRow]
    exact .inr ⟨rfl, Nat.le_add_right _ _⟩
  · rw [if_neg sameRow]
    exact .inl (Nat.lt_add_of_pos_right (Nat.pos_of_ne_zero sameRow))

theorem add_assoc (first second third : Point) : first + second + third = first + (second + third) := by
  simp only [add_def]
  by_cases noRow : third.row = 0
  · by_cases sameRow : second.row = 0 <;> simp [noRow, sameRow, Nat.add_assoc]
  · by_cases sameRow : second.row = 0 <;> simp [noRow, sameRow, Nat.add_assoc]

end Point

structure ColorU where
  r : UInt8
  g : UInt8
  b : UInt8
  a : UInt8
deriving DecidableEq

inductive ColorMarker where
  | start (color : ColorU)
  | end
deriving DecidableEq

inductive LinkMarker where
  | start (url : Str)
  | end
deriving DecidableEq

inductive MarkerDir where
  | start
  | end
deriving DecidableEq

inductive CustomWeight where
  | thin | extraLight | light | medium | semibold | bold | extraBold | black
deriving DecidableEq

inductive BufferTextStyle where
  | weight (weight : CustomWeight)
  | italic
  | underline
  | inlineCode
  | strikeThrough
deriving DecidableEq

inductive BufferBlockItem where
  | horizontalRule
  | embedded (hashedId : Str)
  | image (altText source : Str) (title : Option Str)
deriving DecidableEq

namespace BufferBlockItem

def contentLength : BufferBlockItem → ℕ
  | horizontalRule | embedded _ | image _ _ _ => 1

def lineCount : BufferBlockItem → ℕ
  | horizontalRule | embedded _ | image _ _ _ => 1

end BufferBlockItem

inductive CodeBlockType where
  | shell
  | mermaid
  | code (lang : Str)
deriving DecidableEq

inductive ListIndentLevel where
  | one | two | three
deriving DecidableEq

inductive BlockHeaderSize where
  | header1 | header2 | header3 | header4 | header5 | header6
deriving DecidableEq

inductive FormattedTableAlignment where
  | left | center | right
deriving DecidableEq

inductive BufferBlockStyle where
  | codeBlock (codeBlockType : CodeBlockType)
  | taskList (indentLevel : ListIndentLevel) (complete : Bool)
  | plainText
  | header (headerSize : BlockHeaderSize)
  | unorderedList (indentLevel : ListIndentLevel)
  | orderedList (number : Option ℕ) (indentLevel : ListIndentLevel)
  | table (alignments : List FormattedTableAlignment)
deriving DecidableEq

inductive BufferText where
  | text (fragment : Str) (charCount : ℕ)
  | marker (markerType : BufferTextStyle) (dir : MarkerDir)
  | link (marker : LinkMarker)
  | color (marker : ColorMarker)
  | newline
  | blockItem (itemType : BufferBlockItem)
  | blockMarker (markerType : BufferBlockStyle)
  | placeholder (content : Str)
deriving DecidableEq

structure TextSummary where
  chars : ℕ
  bytes : ℕ
  lines : Point

structure StyleSummary where
  syntaxColorCounter : ℤ

structure BufferSummary where
  style : Option StyleSummary
  text : TextSummary
  block : ℕ

namespace Point

instance : Zero Point := ⟨⟨0, 0⟩⟩

theorem zero_add (point : Point) : 0 + point = point := by
  change (if point.row = 0 then (⟨0, 0 + point.column⟩ : Point) else ⟨0 + point.row, point.column⟩) = point
  split
  · rename_i sameRow
    rw [Nat.zero_add, ← sameRow]
  · rw [Nat.zero_add]

theorem add_zero (point : Point) : point + 0 = point := rfl

end Point

namespace TextSummary

instance : Add TextSummary where
  add self other := ⟨self.chars + other.chars, self.bytes + other.bytes, self.lines + other.lines⟩

instance : Zero TextSummary := ⟨⟨0, 0, 0⟩⟩

theorem add_def (self other : TextSummary) :
    self + other = ⟨self.chars + other.chars, self.bytes + other.bytes, self.lines + other.lines⟩ := rfl

theorem zero_def : (0 : TextSummary) = ⟨0, 0, 0⟩ := rfl

instance : AddMonoid TextSummary where
  zero_add summary := by rw [add_def, zero_def, Nat.zero_add, Nat.zero_add, Point.zero_add]
  add_zero summary := rfl
  add_assoc first second third := by simp only [add_def, Nat.add_assoc, Point.add_assoc]
  nsmul := nsmulRec

end TextSummary

namespace StyleSummary

instance : Add StyleSummary := ⟨fun self other => ⟨self.syntaxColorCounter + other.syntaxColorCounter⟩⟩

theorem add_def (self other : StyleSummary) : self + other = ⟨self.syntaxColorCounter + other.syntaxColorCounter⟩ := rfl

def isColored (self : StyleSummary) : Bool := 0 < self.syntaxColorCounter

def addStyle : Option StyleSummary → Option StyleSummary → Option StyleSummary
  | style, none => style
  | none, some other => some other
  | some style, some other => some (style + other)

theorem addStyle_assoc (first second third : Option StyleSummary) :
    addStyle (addStyle first second) third = addStyle first (addStyle second third) := by
  cases first <;> cases second <;> cases third <;> simp [addStyle, add_def, Int.add_assoc]

end StyleSummary

namespace BufferSummary

instance : Add BufferSummary where
  add self other := ⟨StyleSummary.addStyle self.style other.style, self.text + other.text, self.block + other.block⟩

instance : Zero BufferSummary := ⟨⟨none, 0, 0⟩⟩

theorem add_def (self other : BufferSummary) :
    self + other = ⟨StyleSummary.addStyle self.style other.style, self.text + other.text, self.block + other.block⟩ := rfl

theorem zero_def : (0 : BufferSummary) = ⟨none, 0, 0⟩ := rfl

def styleSummary (self : BufferSummary) : StyleSummary := self.style.getD ⟨0⟩

instance : AddMonoid BufferSummary where
  zero_add summary := by
    rw [add_def, zero_def, AddMonoid.zero_add, Nat.zero_add]
    cases summary with
    | mk style => cases style <;> rfl
  add_zero summary := by rw [add_def, zero_def, AddMonoid.add_zero, Nat.add_zero, StyleSummary.addStyle]
  add_assoc first second third := by
    simp only [add_def, AddSemigroup.add_assoc, Nat.add_assoc, StyleSummary.addStyle_assoc]
  nsmul := nsmulRec

end BufferSummary

namespace ColorMarker

def toCounterDelta : ColorMarker → ℤ
  | start _ => 1
  | «end» => -1

end ColorMarker

namespace BufferText

def textSummary : BufferText → TextSummary
  | newline => ⟨1, 1, ⟨1, 0⟩⟩
  | blockItem itemType => ⟨itemType.contentLength, itemType.contentLength, ⟨itemType.lineCount, 0⟩⟩
  | text fragment charCount => ⟨charCount, byteLen fragment, ⟨0, charCount⟩⟩
  | marker _ _ | link _ | color _ => ⟨0, 0, ⟨0, 0⟩⟩
  | blockMarker _ => ⟨1, 1, ⟨1, 0⟩⟩
  | placeholder _ => ⟨1, 1, ⟨0, 1⟩⟩

def styleSummary : BufferText → Option StyleSummary
  | marker _ _ | link _ => some ⟨0⟩
  | color colorMarker => some ⟨colorMarker.toCounterDelta⟩
  | _ => none

def blockSummary : BufferText → ℕ
  | blockMarker _ | blockItem _ => 1
  | _ => 0

instance : Item BufferText BufferSummary where
  summary self := ⟨self.styleSummary, self.textSummary, self.blockSummary⟩

end BufferText

section Dimensions

def CharOffset : Type := ℕ

def ByteOffset : Type := ℕ

def BlockCount : Type := ℕ

instance : LinearOrder CharOffset := inferInstanceAs (LinearOrder ℕ)

instance : LinearOrder ByteOffset := inferInstanceAs (LinearOrder ℕ)

instance : LinearOrder BlockCount := inferInstanceAs (LinearOrder ℕ)

instance : Dimension CharOffset BufferSummary where
  default := (0 : ℕ)
  addSummary (offset : ℕ) summary := offset + summary.text.chars

instance : Dimension ByteOffset BufferSummary where
  default := (0 : ℕ)
  addSummary (offset : ℕ) summary := offset + summary.text.bytes

instance : Dimension BlockCount BufferSummary where
  default := (0 : ℕ)
  addSummary (count : ℕ) summary := count + summary.block

instance : Dimension Point BufferSummary where
  default := 0
  addSummary point summary := point + summary.text.lines

instance : Dimension TextSummary BufferSummary where
  default := 0
  addSummary self summary := self + summary.text

instance : Dimension BufferSummary BufferSummary where
  default := 0
  addSummary := (· + ·)

instance : LawfulDimension CharOffset BufferSummary where
  addSummary_default := rfl
  addSummary_add (_ : ℕ) _ _ := (Nat.add_assoc _ _ _).symm

instance : LawfulDimension ByteOffset BufferSummary where
  addSummary_default := rfl
  addSummary_add (_ : ℕ) _ _ := (Nat.add_assoc _ _ _).symm

instance : LawfulDimension BlockCount BufferSummary where
  addSummary_default := rfl
  addSummary_add (_ : ℕ) _ _ := (Nat.add_assoc _ _ _).symm

instance : LawfulDimension Point BufferSummary where
  addSummary_default := rfl
  addSummary_add _ _ _ := (Point.add_assoc _ _ _).symm

instance : LawfulDimension TextSummary BufferSummary where
  addSummary_default := AddMonoid.add_zero _
  addSummary_add _ _ _ := (AddSemigroup.add_assoc _ _ _).symm

instance : LawfulDimension BufferSummary BufferSummary where
  addSummary_default := AddMonoid.add_zero _
  addSummary_add _ _ _ := (AddSemigroup.add_assoc _ _ _).symm

def textOf (items : List BufferText) : TextSummary := (items.map BufferText.textSummary).sum

def charsOf (items : List BufferText) : ℕ := (textOf items).chars

def bytesOf (items : List BufferText) : ℕ := (textOf items).bytes

def linesOf (items : List BufferText) : Point := (textOf items).lines

variable (left right items : List BufferText) (item : BufferText)

theorem textOf_append : textOf (left ++ right) = textOf left + textOf right := by simp [textOf]

theorem textOf_cons : textOf (item :: items) = item.textSummary + textOf items := by simp [textOf]

theorem charsOf_append : charsOf (left ++ right) = charsOf left + charsOf right := by
  rw [charsOf, textOf_append]
  rfl

theorem bytesOf_append : bytesOf (left ++ right) = bytesOf left + bytesOf right := by
  rw [bytesOf, textOf_append]
  rfl

theorem linesOf_append : linesOf (left ++ right) = linesOf left + linesOf right := by
  rw [linesOf, textOf_append]
  rfl

theorem charsOf_singleton : charsOf [item] = item.textSummary.chars := Nat.add_zero _

theorem bytesOf_singleton : bytesOf [item] = item.textSummary.bytes := Nat.add_zero _

theorem linesOf_singleton : linesOf [item] = item.textSummary.lines := Point.add_zero _

theorem dimensionOf_textSummary : dimensionOf TextSummary items = textOf items := by
  induction items using List.reverseRecOn with
  | nil => rfl
  | append_singleton items item ih =>
    rw [← addSummary_item, ih, textOf_append]
    simp [textOf, Item.summary, Dimension.addSummary]

theorem dimensionOf_charOffset : dimensionOf CharOffset items = charsOf items := by
  induction items using List.reverseRecOn with
  | nil => rfl
  | append_singleton items item ih =>
    rw [← addSummary_item, ih, charsOf_append, charsOf_singleton]
    rfl

theorem dimensionOf_byteOffset : dimensionOf ByteOffset items = bytesOf items := by
  induction items using List.reverseRecOn with
  | nil => rfl
  | append_singleton items item ih =>
    rw [← addSummary_item, ih, bytesOf_append, bytesOf_singleton]
    rfl

theorem dimensionOf_point : dimensionOf Point items = linesOf items := by
  induction items using List.reverseRecOn with
  | nil => rfl
  | append_singleton items item ih =>
    rw [← addSummary_item, ih, linesOf_append, linesOf_singleton]
    rfl

theorem prefixSumsMonotone_of_append {D : Type} [Dimension D BufferSummary] [LinearOrder D] {items : List BufferText}
    (grows : ∀ left right : List BufferText, dimensionOf D left ≤ dimensionOf D (left ++ right)) : PrefixSumsMonotone D items := by
  intro i j le
  obtain ⟨right, split⟩ := (take_prefix_take_left le : items.take i <+: items.take j)
  rw [← split]
  exact grows _ _

theorem prefixSumsMonotone {D : Type} [Dimension D BufferSummary] [LinearOrder D]
    (grows : ∀ (d : D) (item : BufferText), d ≤ Dimension.addSummary d (Item.summary item)) (items : List BufferText) :
    PrefixSumsMonotone D items := by
  refine prefixSumsMonotone_of_append fun left right => ?_
  induction right using List.reverseRecOn with
  | nil => rw [append_nil]
  | append_singleton right item ih =>
    rw [← append_assoc, ← addSummary_item]
    exact le_trans ih (grows _ item)

theorem charOffset_monotone : PrefixSumsMonotone CharOffset items :=
  prefixSumsMonotone (fun (offset : CharOffset) _ => Nat.le_add_right offset _) items

theorem byteOffset_monotone : PrefixSumsMonotone ByteOffset items :=
  prefixSumsMonotone (fun (offset : ByteOffset) _ => Nat.le_add_right offset _) items

end Dimensions

section Symbols

def textFragmentSize : ℕ := 128

/-- Fragments come from `append_str`, which reads lines and counts their characters. -/
def BufferText.WellFormed : BufferText → Prop
  | text fragment charCount => byteLen fragment ≤ textFragmentSize ∧ charCount = fragment.length ∧ '\n' ∉ fragment
  | _ => True

theorem length_le_byteLen (text : Str) : text.length ≤ byteLen text := by
  induction text with
  | nil => exact Nat.le_refl _
  | cons c text ih =>
    have := c.utf8Size_pos
    rw [length_cons, byteLen_cons]
    omega

inductive Symbol where
  | char (char : Char)
  | item (item : BufferText)
deriving DecidableEq

def Symbol.textSummary : Symbol → TextSummary
  | .char c => ⟨1, c.utf8Size, ⟨0, 1⟩⟩
  | .item other => other.textSummary

def Symbol.width (symbol : Symbol) : ℕ := symbol.textSummary.chars

def BufferText.symbols : BufferText → List Symbol
  | text fragment _ => fragment.map .char
  | item => [.item item]

theorem BufferText.symbols_text (fragment : Str) (charCount : ℕ) :
    (BufferText.text fragment charCount).symbols = fragment.map .char := rfl

theorem BufferText.symbols_other {item : BufferText} (other : ∀ fragment charCount, item ≠ .text fragment charCount) :
    item.symbols = [.item item] ∧ item.textSummary.chars ≤ 1 := by
  cases item with
  | text fragment charCount => exact absurd rfl (other fragment charCount)
  | blockItem itemType => cases itemType <;> exact ⟨rfl, Nat.le_refl _⟩
  | _ => exact ⟨rfl, by simp [textSummary]⟩

def symbolsOf (items : List BufferText) : List Symbol := items.flatMap BufferText.symbols

def summaryOf (symbols : List Symbol) : TextSummary := (symbols.map Symbol.textSummary).sum

def widthOf (symbols : List Symbol) : ℕ := (summaryOf symbols).chars

theorem summaryOf_append (left right : List Symbol) : summaryOf (left ++ right) = summaryOf left + summaryOf right := by
  simp [summaryOf]

theorem summaryOf_singleton (symbol : Symbol) : summaryOf [symbol] = symbol.textSummary := by simp [summaryOf]

theorem widthOf_append (left right : List Symbol) : widthOf (left ++ right) = widthOf left + widthOf right := by
  rw [widthOf, summaryOf_append]
  rfl

theorem widthOf_cons (symbol : Symbol) (symbols : List Symbol) :
    widthOf (symbol :: symbols) = symbol.textSummary.chars + widthOf symbols := by
  rw [widthOf, summaryOf, map_cons, sum_cons]
  rfl

theorem summaryOf_chars (chars : Str) :
    summaryOf (chars.map .char) = ⟨chars.length, byteLen chars, ⟨0, chars.length⟩⟩ := by
  induction chars with
  | nil => rfl
  | cons c chars ih =>
    rw [map_cons, summaryOf, map_cons, sum_cons, ← summaryOf, ih, TextSummary.add_def]
    simp only [Symbol.textSummary, length_cons, byteLen_cons, Point.add_def, if_true, Nat.add_comm]

theorem widthOf_chars (chars : Str) : widthOf (chars.map .char) = chars.length := by
  rw [widthOf, summaryOf_chars]

theorem BufferText.WellFormed.summaryOf_symbols {item : BufferText} (wellFormed : item.WellFormed) :
    summaryOf item.symbols = item.textSummary := by
  cases item with
  | text fragment charCount =>
    obtain ⟨-, rfl, -⟩ := wellFormed
    exact summaryOf_chars fragment
  | _ => exact summaryOf_singleton _

variable {items : List BufferText}

theorem summaryOf_symbolsOf (wellFormed : ∀ item ∈ items, item.WellFormed) :
    summaryOf (symbolsOf items) = textOf items := by
  induction items with
  | nil => rfl
  | cons item items ih =>
    obtain ⟨itemFormed, wellFormed⟩ := List.forall_mem_cons.mp wellFormed
    rw [symbolsOf, flatMap_cons, ← symbolsOf, summaryOf_append, ih wellFormed, itemFormed.summaryOf_symbols, textOf_cons]

theorem widthOf_symbolsOf (wellFormed : ∀ item ∈ items, item.WellFormed) :
    widthOf (symbolsOf items) = charsOf items := by
  rw [widthOf, summaryOf_symbolsOf wellFormed]
  rfl

theorem symbolsOf_append (left right : List BufferText) : symbolsOf (left ++ right) = symbolsOf left ++ symbolsOf right :=
  flatMap_append

theorem symbolsOf_cons (item : BufferText) (items : List BufferText) :
    symbolsOf (item :: items) = item.symbols ++ symbolsOf items := flatMap_cons

/-- The content of a buffer, as the crate's operations make it. -/
structure BufferContent (build : Build) where
  tree : Node BufferText BufferSummary
  wf : tree.WF build
  low : tree.height < stackCapacity
  wellFormed : ∀ item ∈ tree.toList, item.WellFormed

def release : Build := ⟨false, false⟩

def BufferContent.ofItems (build : Build) (items : List BufferText) (few : items.length ≤ build.capacity)
    (wellFormed : ∀ item ∈ items, item.WellFormed) : BufferContent build where
  tree := .leaf (SumTree.sum (items.map Item.summary)) items (items.map Item.summary)
  wf := .leaf few
  low := (by decide : 0 < stackCapacity)
  wellFormed := by
    rw [Node.toList_leaf]
    exact wellFormed

end Symbols

end Warp.Editor.Content
