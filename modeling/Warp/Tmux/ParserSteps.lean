import Warp.Tmux.Commands

namespace Warp.Tmux

open List

open Ansi (Bytes ascii)
open Transducer

def withoutReturns (bytes : Bytes) : Bytes := bytes.filter (· ≠ carriageReturn)

variable {bytes : Bytes}

theorem withoutReturns_eq (plain : carriageReturn ∉ bytes) : withoutReturns bytes = bytes :=
  List.filter_eq_self.mpr fun byte member => decide_eq_true fun same => plain (same ▸ member)

theorem not_mem_withoutReturns : carriageReturn ∉ withoutReturns bytes := by
  unfold withoutReturns
  simp

theorem withoutReturns_append {more : Bytes} :
    withoutReturns (bytes ++ more) = withoutReturns bytes ++ withoutReturns more :=
  filter_append ..

namespace ParserState

variable {debug : Bool} {state next : ParserState} {byte : UInt8} {bytes tag args : Bytes} {calls : List Call}

theorem advance_carriageReturn : advance debug state carriageReturn = some (state, []) := rfl

theorem parse_withoutReturns : parse debug state (withoutReturns bytes) = parse debug state bytes :=
  feed_filter fun state byte dropped => by
    rw [of_decide_eq_false dropped |> Decidable.not_not.mp]
    rfl

def Untagged : ParserState → Prop
  | .readingTag _ => False
  | _ => True

theorem advance_untagged (untagged : state.Untagged) (visible : byte ≠ carriageReturn) :
    advance debug state byte = advanceUntagged debug state byte := by
  unfold advance
  rw [if_neg visible]
  cases state <;> first | rfl | exact untagged.elim

theorem untagged_ofTag : (ofTag debug tag).Untagged := by
  unfold ofTag
  split_ifs <;> trivial

theorem advance_endOfTag (ends : byte = space ∨ byte = lineFeed) :
    advance debug (.readingTag tag) byte = advance debug (ofTag debug tag) byte := by
  have visible : byte ≠ carriageReturn := by
    rintro rfl
    revert ends
    decide
  rw [advance_untagged untagged_ofTag visible]
  unfold advance
  rw [if_neg visible]
  exact if_pos ends

theorem parse_endOfTag (ends : byte = space ∨ byte = lineFeed) :
    parse debug (.readingTag tag) (byte :: bytes) = parse debug (ofTag debug tag) (byte :: bytes) := by
  rw [parse, feed, advance_endOfTag ends]
  rfl

theorem parse_tag (short : tag.length ≤ maxTagLength)
    (inside : ∀ byte ∈ bytes, byte ≠ space ∧ byte ≠ lineFeed ∧ byte ≠ carriageReturn) :
    parse debug (.readingTag tag) bytes = some (.readingTag ((tag ++ bytes).take maxTagLength), []) := by
  induction bytes generalizing tag with
  | nil => rw [append_nil, take_of_length_le short, parse, feed_nil]
  | cons byte bytes ih =>
    obtain ⟨isNoSpace, isNoEnd, visible⟩ := inside byte mem_cons_self
    have later := fun tag short => @ih tag short fun byte member => inside byte (mem_cons_of_mem _ member)
    have moves : advance debug (.readingTag tag) byte =
        some (.readingTag (if tag.length < maxTagLength then tag ++ [byte] else tag), []) := by
      unfold advance
      rw [if_neg visible]
      exact if_neg (not_or.mpr ⟨isNoSpace, isNoEnd⟩)
    rw [parse, feed_cons_silent moves]
    by_cases room : tag.length < maxTagLength
    · rw [if_pos room]
      show parse debug _ bytes = _
      rw [later (tag ++ [byte]) (by rw [length_append]; exact room), append_assoc]
      rfl
    · rw [if_neg room]
      have full : tag.length = maxTagLength := Nat.le_antisymm short (Nat.not_lt.mp room)
      show parse debug _ bytes = _
      rw [later tag short, take_append_of_le_length (Nat.le_of_eq full.symm), take_append_of_le_length (Nat.le_of_eq full.symm)]

theorem parse_silent {f : Bytes → ParserState} {lead : Bytes}
    (moves : ∀ lead byte, byte ≠ lineFeed → byte ≠ carriageReturn → advance debug (f lead) byte = some (f (lead ++ [byte]), []))
    (inside : lineFeed ∉ bytes) : parse debug (f lead) bytes = some (f (lead ++ withoutReturns bytes), []) := by
  induction bytes generalizing lead with
  | nil =>
    rw [show withoutReturns [] = [] from rfl, append_nil]
    rfl
  | cons byte bytes ih =>
    have later := fun lead => @ih lead fun member => inside (mem_cons_of_mem _ member)
    have isNoEnd : byte ≠ lineFeed := fun same => inside (same ▸ mem_cons_self)
    by_cases hidden : byte = carriageReturn
    · rw [hidden, parse, feed_cons_silent advance_carriageReturn]
      exact later lead
    · have kept : withoutReturns (byte :: bytes) = byte :: withoutReturns bytes :=
        filter_cons_of_pos (decide_eq_true hidden)
      rw [parse, feed_cons_silent (moves lead byte isNoEnd hidden), kept]
      have read := later (lead ++ [byte])
      rw [append_assoc] at read
      exact read

theorem parse_tagUnknown (inside : lineFeed ∉ bytes) : parse debug (.tagUnknown tag args) bytes =
    some (.tagUnknown tag (if debug then args ++ withoutReturns bytes else args), []) := by
  have silent := @parse_silent debug bytes (fun read => .tagUnknown tag (if debug then args ++ read else args)) [] ?_ inside
  · rw [append_nil, ite_self] at silent
    exact silent
  · intro lead byte isNoEnd visible
    rw [@advance_untagged debug (.tagUnknown tag _) byte trivial visible]
    show advanceTagUnknown debug tag _ byte = _
    unfold advanceTagUnknown
    rw [if_neg isNoEnd]
    cases debug
    · rfl
    · rw [if_pos rfl, if_pos rfl, if_pos rfl, append_assoc]

theorem parse_tagBegin (inside : lineFeed ∉ bytes) :
    parse debug .tagBegin bytes = some (.tagBegin, []) := by
  refine @parse_silent _ _ (fun _ => .tagBegin) [] ?_ inside
  intro lead byte isNoEnd visible
  rw [@advance_untagged debug .tagBegin byte trivial visible]
  show advanceTagBegin byte = _
  unfold advanceTagBegin
  rw [if_neg isNoEnd]

theorem parse_currentLine {currentLine : Bytes} {lines : List Bytes}
    (inside : lineFeed ∉ bytes) : parse debug (.readingCommandOutput currentLine lines) bytes =
      some (.readingCommandOutput (currentLine ++ withoutReturns bytes) lines, []) := by
  refine parse_silent (f := fun read => .readingCommandOutput read lines) ?_ inside
  intro lead byte isNoEnd visible
  rw [@advance_untagged debug (.readingCommandOutput lead lines) byte trivial visible]
  show advanceReadingCommandOutput lead lines byte = _
  unfold advanceReadingCommandOutput
  rw [if_neg isNoEnd]

theorem parse_error (inside : lineFeed ∉ bytes) : parse debug .error bytes = some (.error, []) := by
  refine @parse_silent _ _ (fun _ => .error) [] ?_ inside
  intro lead byte isNoEnd visible
  rw [@advance_untagged debug .error byte trivial visible]
  show some (if byte = lineFeed then _ else _, _) = _
  rw [if_neg isNoEnd]

section Numbers

variable {number : ℕ} {digits : Bytes}

theorem visible_digit (isDigit : isAsciiDigit byte) : byte ≠ carriageReturn := by
  rintro rfl
  revert isDigit
  decide

def Reads (debug : Bool) (state : ℕ → ParserState) : Prop :=
  ∀ number digit, isAsciiDigit digit → advance debug (state number) digit = (pushDigit number digit).map (state ·, [])

theorem reads_tagOutput : Reads debug fun pane => .tagOutput (some pane) := by
  intro pane digit isDigit
  rw [@advance_untagged debug (.tagOutput (some pane)) digit trivial (visible_digit isDigit)]
  show (if isAsciiDigit digit then _ else _) = _
  rw [if_pos isDigit]
  cases pushDigit pane digit <;> rfl

theorem reads_tagWindowClose : Reads debug fun window => .tagWindowClose (some window) := by
  intro window digit isDigit
  rw [@advance_untagged debug (.tagWindowClose (some window)) digit trivial (visible_digit isDigit)]
  show (if isAsciiDigit digit then _ else _) = _
  rw [if_pos isDigit]
  cases pushDigit window digit <;> rfl

theorem parse_digits {state : ℕ → ParserState} (reads : Reads debug state) (all : ∀ digit ∈ digits, isAsciiDigit digit) :
    parse debug (state number) digits = (digits.foldlM pushDigit number).map (state ·, []) := by
  induction digits generalizing number with
  | nil => rfl
  | cons digit digits ih =>
    rw [parse, feed, reads number digit (all digit mem_cons_self), foldlM_cons]
    cases pushDigit number digit with
    | none => rfl
    | some number =>
      show (parse debug (state number) digits).map (after []) = (digits.foldlM pushDigit number).map _
      rw [ih fun digit member => all digit (mem_cons_of_mem _ member), after_nil, Option.map_id]
      rfl

theorem parse_number {state : ℕ → ParserState} (reads : Reads debug state) (all : ∀ digit ∈ digits, isAsciiDigit digit)
    (fits : digitsValue 0 digits < 2 ^ 32) : parse debug (state 0) digits = some (state (digitsValue 0 digits), []) := by
  rw [parse_digits reads all, foldlM_pushDigit, if_pos (.inr fits)]
  rfl

theorem parse_number_none {state : ℕ → ParserState} (reads : Reads debug state) (all : ∀ digit ∈ digits, isAsciiDigit digit)
    (overflows : ¬ digitsValue 0 digits < 2 ^ 32) : parse debug (state 0) digits = none := by
  have some : digits ≠ [] := by
    rintro rfl
    exact overflows (by decide)
  rw [parse_digits reads all, foldlM_pushDigit, if_neg (not_or.mpr ⟨some, overflows⟩)]
  rfl

end Numbers

end ParserState

end Warp.Tmux
