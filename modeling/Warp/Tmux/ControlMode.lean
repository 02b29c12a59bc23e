import Warp.Tmux.ParserSteps

namespace Warp.Tmux

open Ansi (Bytes ascii)
open Transducer

/-! What tmux writes in control mode. -/

def decimal (number : ℕ) : Bytes := (Nat.toDigits 10 number).map fun digit => .ofNat digit.toNat

def octalDigit (digit : ℕ) : UInt8 := .ofNat (48 + digit)

def escapeByte (byte : UInt8) : Bytes :=
  if byte < 32 ∨ byte = backslash then backslash :: [64, 8, 1].map fun place => octalDigit (byte.toNat / place % 8) else [byte]

/-- What a suffix holds of a line follows its first word. -/
inductive Item where
  | paneOutput (pane : ℕ) (output : Bytes)
  | commandBlock (suffix : Bytes) (succeeded : Bool) (lines : List Bytes) (endSuffix : Bytes)
  | windowClose (unlinked : Bool) (window : ℕ)
  | exit
  | notification (tag suffix : Bytes)

def guardOf (succeeded : Bool) : Bytes := if succeeded then ascii "%end" else ascii "%error"

def Item.lines : Item → List Bytes
  | .paneOutput pane output => [ascii "%output %" ++ decimal pane ++ ascii " " ++ output.flatMap escapeByte]
  | .commandBlock suffix succeeded lines endSuffix => (ascii "%begin" ++ suffix) :: lines ++ [guardOf succeeded ++ endSuffix]
  | .windowClose unlinked window =>
    [(if unlinked then ascii "%unlinked-window-close" else ascii "%window-close") ++ ascii " @" ++ decimal window]
  | .exit => [ascii "%exit"]
  | .notification tag suffix => [ascii "%" ++ tag ++ suffix]

def Suffix (suffix : Bytes) : Prop := (suffix = [] ∨ suffix.head? = some space) ∧ lineFeed ∉ suffix

def IsGuard (line : Bytes) : Prop := ∃ succeeded suffix, Suffix suffix ∧ line = guardOf succeeded ++ suffix

def knownTags : List Bytes := ["begin", "exit", "output", "window-close", "unlinked-window-close"].map ascii

def Item.WellFormed : Item → Prop
  | .paneOutput pane _ => pane < 2 ^ 32
  | .commandBlock suffix _ lines endSuffix =>
    Suffix suffix ∧ Suffix endSuffix ∧ ∀ line ∈ lines, lineFeed ∉ line ∧ ¬ IsGuard line
  | .windowClose _ window => window < 2 ^ 32
  | .exit => True
  | .notification tag suffix =>
    (∀ byte ∈ tag, byte ≠ space ∧ byte ≠ lineFeed ∧ byte ≠ carriageReturn) ∧ tag ∉ knownTags ∧ Suffix suffix

/-- What the handler is to learn of an item, of notifications only in debug builds. -/
def Item.calls (debugAssertions : Bool) : Item → List Call
  | .paneOutput pane output => output.map (.paneOutput pane)
  | .commandBlock _ succeeded lines _ =>
    [.tmuxControlModeMessage (.commandOutput (if succeeded then .ok lines else .error lines))]
  | .windowClose _ window => [.tmuxControlModeMessage (.windowClose window)]
  | .exit => [.tmuxControlModeMessage .exit]
  | .notification tag suffix => if debugAssertions then [.tmuxControlModeMessage (.unknown tag suffix)] else []

inductive Written : List Bytes → Bytes → Prop
  | nil : Written [] []
  | lf {line : Bytes} {lines : List Bytes} {bytes : Bytes} (rest : Written lines bytes) :
    Written (line :: lines) (line ++ lineFeed :: bytes)
  | crlf {line : Bytes} {lines : List Bytes} {bytes : Bytes} (rest : Written lines bytes) :
    Written (line :: lines) (line ++ carriageReturn :: lineFeed :: bytes)

/-- What arrives of an item: no carriage returns, and no more of a tag than the parser holds. -/
def Item.received : Item → Item
  | .commandBlock suffix succeeded lines endSuffix => .commandBlock suffix succeeded (lines.map withoutReturns) endSuffix
  | .notification tag suffix => .notification (tag.take maxTagLength) (withoutReturns suffix)
  | item => item

def Item.Unguarded : Item → Prop
  | .commandBlock _ _ lines _ => ∀ line ∈ lines, ∀ succeeded, ¬ guardOf succeeded <+: withoutReturns line
  | _ => True

section Numbers

variable {number : ℕ}

theorem digit_eq {digit : ℕ} (small : digit < 10) :
    isAsciiDigit (.ofNat digit.digitChar.toNat) = true ∧ ((.ofNat digit.digitChar.toNat : UInt8) - 48).toNat = digit := by
  have all : ∀ digit : Fin 10, isAsciiDigit (.ofNat (Nat.digitChar digit).toNat) = true ∧
      ((.ofNat (Nat.digitChar digit).toNat : UInt8) - 48).toNat = digit := by decide
  exact all ⟨digit, small⟩

theorem digitsValue_append {digits more : Bytes} :
    digitsValue number (digits ++ more) = digitsValue (digitsValue number digits) more := List.foldl_append

theorem decimal_digits : (∀ digit ∈ decimal number, isAsciiDigit digit) ∧ digitsValue 0 (decimal number) = number := by
  induction number using Nat.strongRecOn with
  | _ number ih =>
    unfold decimal
    by_cases small : number < 10
    · rw [Nat.toDigits_of_lt_base small, List.map_singleton]
      obtain ⟨isDigit, value⟩ := digit_eq small
      refine ⟨fun digit member => List.mem_singleton.mp member ▸ isDigit, ?_⟩
      show 0 * 10 + _ = number
      rw [value]
      omega
    · have large : 10 ≤ number := Nat.not_lt.mp small
      rw [Nat.toDigits_of_base_le (by decide) large, List.map_append, List.map_singleton]
      obtain ⟨digits, value⟩ := ih (number / 10) (by omega)
      obtain ⟨isDigit, last⟩ := digit_eq (Nat.mod_lt number (by decide : 10 > 0))
      constructor
      · intro digit member
        rcases List.mem_append.mp member with old | new
        · exact digits digit old
        · exact List.mem_singleton.mp new ▸ isDigit
      · rw [digitsValue_append]
        show digitsValue 0 (decimal (number / 10)) * 10 + _ = number
        rw [value, last]
        omega

end Numbers

namespace ParserState

variable {debug : Bool} {pane : ℕ} {byte : UInt8} {bytes : Bytes}

theorem octalDigit_eq {digit : ℕ} (small : digit < 8) : octalDigit digit ≠ carriageReturn ∧
    (48 ≤ octalDigit digit ∧ octalDigit digit ≤ 56) ∧ octalDigit digit - 48 = .ofNat digit := by
  have all : ∀ digit : Fin 8, octalDigit digit ≠ carriageReturn ∧
      (48 ≤ octalDigit digit ∧ octalDigit digit ≤ 56) ∧ octalDigit digit - 48 = .ofNat digit := by decide
  exact all ⟨digit, small⟩

def atPlace (digit place : ℕ) : UInt8 := UInt8.ofNat digit <<< UInt8.ofNat (place * 3)

theorem advance_octalDigit {digit place : ℕ} {char : UInt8} (small : digit < 8) :
    advance debug (.readingPaneOutput pane (some ⟨char, place + 1, Nat.succ_pos place⟩)) (octalDigit digit) =
      some (if more : 0 < place then (.readingPaneOutput pane (some ⟨char ||| atPlace digit place, place, more⟩), [])
        else (.readingPaneOutput pane none, [.paneOutput pane (char ||| atPlace digit place)])) := by
  obtain ⟨visible, isOctal, value⟩ := octalDigit_eq small
  rw [@advance_untagged debug (.readingPaneOutput pane (some ⟨char, place + 1, Nat.succ_pos place⟩)) _ trivial visible]
  show (if 48 ≤ octalDigit digit ∧ octalDigit digit ≤ 56 then _ else _) = _
  rw [if_pos isOctal, value]
  rfl

theorem escaped_value (byte : UInt8) : (0 ||| atPlace (byte.toNat / 64 % 8) 2) ||| atPlace (byte.toNat / 8 % 8) 1 |||
    atPlace (byte.toNat / 1 % 8) 0 = byte := by
  have all : ∀ n : Fin 256, (0 ||| atPlace (n.val / 64 % 8) 2) ||| atPlace (n.val / 8 % 8) 1 |||
      atPlace (n.val / 1 % 8) 0 = UInt8.ofNat n.val := by decide +kernel
  have same := all ⟨byte.toNat, byte.toNat_lt⟩
  rw [UInt8.ofNat_toNat] at same
  exact same

theorem parse_escapeByte : parse debug (.readingPaneOutput pane none) (escapeByte byte) =
    some (.readingPaneOutput pane none, [.paneOutput pane byte]) := by
  unfold escapeByte
  split_ifs with escaped
  · have opens : advance debug (.readingPaneOutput pane none) backslash = some (.readingPaneOutput pane (some ⟨0, 3, by decide⟩), []) := rfl
    have first := @advance_octalDigit debug pane (byte.toNat / 64 % 8) 2 0 (Nat.mod_lt _ (by decide))
    have second := @advance_octalDigit debug pane (byte.toNat / 8 % 8) 1 (0 ||| atPlace (byte.toNat / 64 % 8) 2)
      (Nat.mod_lt _ (by decide))
    have third := @advance_octalDigit debug pane (byte.toNat / 1 % 8) 0
      ((0 ||| atPlace (byte.toNat / 64 % 8) 2) ||| atPlace (byte.toNat / 8 % 8) 1) (Nat.mod_lt _ (by decide))
    rw [parse, feed_cons_silent opens]
    show feed _ _ [octalDigit _, octalDigit _, octalDigit _] = _
    rw [feed_cons_silent first, feed_cons_silent second, feed_cons third, escaped_value]
    rfl
  · have plain : ¬ byte < 32 ∧ byte ≠ backslash := not_or.mp escaped
    have visible : byte ≠ carriageReturn := by
      rintro rfl
      exact plain.1 (by decide)
    have isNoEnd : byte ≠ lineFeed := by
      rintro rfl
      exact plain.1 (by decide)
    have moves : advance debug (.readingPaneOutput pane none) byte = some (.readingPaneOutput pane none, [.paneOutput pane byte]) := by
      rw [@advance_untagged debug (.readingPaneOutput pane none) byte trivial visible]
      show advanceReadingPaneOutput pane none byte = _
      unfold advanceReadingPaneOutput
      rw [if_neg isNoEnd, if_neg plain.2, if_neg plain.1]
    rw [parse, feed_cons moves]
    rfl

theorem parse_paneOutput : parse debug (.readingPaneOutput pane none) (bytes.flatMap escapeByte) =
    some (.readingPaneOutput pane none, bytes.map (.paneOutput pane)) := by
  induction bytes with
  | nil => rfl
  | cons byte bytes ih => exact feed_trans parse_escapeByte ih

end ParserState

end Warp.Tmux
