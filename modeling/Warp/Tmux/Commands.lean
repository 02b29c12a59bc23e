import Warp.Tmux.Parser

namespace Warp.Tmux

open List

open Ansi (Bytes ascii)

inductive TmuxCommandResponse where
  | setPrimaryWindowPane (windowId paneId : ℕ)
  | backgroundWindow (windowId paneId : ℕ)
  deriving DecidableEq

def primaryWindowPanePrefix : Bytes := ascii "primary window pane"
def backgroundWindowPrefix : Bytes := ascii "background window"

def digitsValue (number : ℕ) (digits : Bytes) : ℕ := digits.foldl (fun number digit => number * 10 + (digit - 48).toNat) number

def parseAsciiU32 (bytes : Bytes) : Option ℕ :=
  if bytes = [] then none
  else bytes.foldlM (fun number byte => if isAsciiDigit byte then pushDigit number byte else none) 0

def captures (leader line : Bytes) : Option (Bytes × Bytes) :=
  (line.dropPrefix? (leader ++ ascii ": @")).bind fun rest =>
    let windowId := rest.takeWhile isAsciiDigit
    ((rest.dropWhile isAsciiDigit).dropPrefix? (ascii " %")).bind fun paneId =>
      if windowId ≠ [] ∧ paneId ≠ [] ∧ paneId.all isAsciiDigit then some (windowId, paneId) else none

/-- A number that does not fit panics. -/
def parseIds (response : ℕ → ℕ → TmuxCommandResponse) (captured : Bytes × Bytes) : Option (Option TmuxCommandResponse) := do
  let windowId ← parseAsciiU32 captured.1
  let paneId ← parseAsciiU32 captured.2
  some (some (response windowId paneId))

def parseCommand (line : Bytes) : Option (Option TmuxCommandResponse) :=
  match captures backgroundWindowPrefix line with
  | some captured => parseIds .backgroundWindow captured
  | none =>
    match captures primaryWindowPanePrefix line with
    | some captured => parseIds .setPrimaryWindowPane captured
    | none => some none

section Numbers

variable {number : ℕ} {digit : UInt8} {digits : Bytes}

theorem pushDigit_eq : pushDigit number digit =
    if number * 10 + (digit - 48).toNat < 2 ^ 32 then some (number * 10 + (digit - 48).toNat) else none := by
  unfold pushDigit Checked.mul Checked.add
  by_cases tens : number * 10 < 2 ^ 32
  · rw [if_pos tens]
    rfl
  · rw [if_neg tens, if_neg (by omega)]
    rfl

theorem le_digitsValue : number ≤ digitsValue number digits := by
  induction digits generalizing number with
  | nil => exact Nat.le_refl _
  | cons digit digits ih =>
    have later := @ih (number * 10 + (digit - 48).toNat)
    show number ≤ digitsValue (number * 10 + (digit - 48).toNat) digits
    omega

theorem foldlM_pushDigit : digits.foldlM pushDigit number =
    if digits = [] ∨ digitsValue number digits < 2 ^ 32 then some (digitsValue number digits) else none := by
  induction digits generalizing number with
  | nil => rfl
  | cons digit digits ih =>
    rw [foldlM_cons, pushDigit_eq, if_congr (or_iff_right (cons_ne_nil _ _)) rfl rfl]
    have later := @le_digitsValue (number * 10 + (digit - 48).toNat) digits
    have isValue : digitsValue number (digit :: digits) = digitsValue (number * 10 + (digit - 48).toNat) digits := rfl
    rw [isValue]
    by_cases fits : number * 10 + (digit - 48).toNat < 2 ^ 32
    · rw [if_pos fits]
      show digits.foldlM pushDigit _ = _
      rw [ih]
      refine if_congr ⟨?_, .inr⟩ rfl rfl
      rintro (rfl | small)
      · exact fits
      · exact small
    · rw [if_neg fits, if_neg (by omega)]
      rfl

theorem parseAsciiU32_eq (some : digits ≠ []) (all : ∀ digit ∈ digits, isAsciiDigit digit) :
    parseAsciiU32 digits = if digitsValue 0 digits < 2 ^ 32 then Option.some (digitsValue 0 digits) else none := by
  unfold parseAsciiU32
  have plain : ∀ (digits : Bytes) number, (∀ digit ∈ digits, isAsciiDigit digit) →
      digits.foldlM (fun number byte => if isAsciiDigit byte then pushDigit number byte else none) number =
        digits.foldlM pushDigit number := by
    intro digits
    induction digits with
    | nil => exact fun _ _ => rfl
    | cons digit digits ih =>
      intro number all
      rw [foldlM_cons, foldlM_cons, if_pos (all digit mem_cons_self)]
      exact congrArg _ (funext fun number => ih number fun digit member => all digit (mem_cons_of_mem _ member))
  rw [if_neg some, plain digits 0 all, foldlM_pushDigit, if_congr (or_iff_right some) rfl rfl]

end Numbers

variable {captured : Bytes × Bytes} {line : Bytes}

theorem captures_digits {leader : Bytes} (found : captures leader line = some captured) :
    (captured.1 ≠ [] ∧ ∀ digit ∈ captured.1, isAsciiDigit digit) ∧
      captured.2 ≠ [] ∧ ∀ digit ∈ captured.2, isAsciiDigit digit := by
  unfold captures at found
  obtain ⟨rest, -, found⟩ := Option.bind_eq_some_iff.mp found
  obtain ⟨paneId, -, found⟩ := Option.bind_eq_some_iff.mp found
  split_ifs at found with digits
  obtain ⟨someWindow, somePane, all⟩ := digits
  rw [← Option.some_inj.mp found]
  exact ⟨⟨someWindow, List.all_eq_true.mp all_takeWhile⟩, somePane, List.all_eq_true.mp all⟩

def IdsFit (captured : Bytes × Bytes) : Prop := digitsValue 0 captured.1 < 2 ^ 32 ∧ digitsValue 0 captured.2 < 2 ^ 32

theorem parseIds_isSome_iff {response : ℕ → ℕ → TmuxCommandResponse} {leader : Bytes}
    (found : captures leader line = some captured) : (parseIds response captured).isSome ↔ IdsFit captured := by
  obtain ⟨⟨someWindow, window⟩, somePane, pane⟩ := captures_digits found
  unfold parseIds IdsFit
  rw [parseAsciiU32_eq someWindow window, parseAsciiU32_eq somePane pane]
  by_cases first : digitsValue 0 captured.1 < 2 ^ 32
  · by_cases second : digitsValue 0 captured.2 < 2 ^ 32
    · rw [if_pos first, if_pos second]
      exact iff_of_true rfl ⟨first, second⟩
    · rw [if_pos first, if_neg second]
      exact iff_of_false Bool.false_ne_true fun both => second both.2
  · rw [if_neg first]
    exact iff_of_false Bool.false_ne_true fun both => first both.1

theorem captures_primary_of_background (found : captures backgroundWindowPrefix line = some captured) :
    captures primaryWindowPanePrefix line = none := by
  unfold captures at found ⊢
  obtain ⟨rest, isRest, -⟩ := Option.bind_eq_some_iff.mp found
  cases other : line.dropPrefix? (primaryWindowPanePrefix ++ ascii ": @") with
  | none => rfl
  | some tail =>
    obtain ⟨leader, isLine, isLeader⟩ := List.dropPrefix?_eq_some_iff.mp isRest
    obtain ⟨leader', isLine', isLeader'⟩ := List.dropPrefix?_eq_some_iff.mp other
    rw [eq_of_beq isLeader] at isLine
    rw [eq_of_beq isLeader', isLine] at isLine'
    have first : some (98 : UInt8) = some 112 := congrArg List.head? isLine'
    exact absurd first (by decide)

theorem parseCommand_isSome_iff : (parseCommand line).isSome ↔
    ∀ leader ∈ [backgroundWindowPrefix, primaryWindowPanePrefix], ∀ captured, captures leader line = some captured →
      IdsFit captured := by
  have both : ∀ P : Bytes → Prop, (∀ leader ∈ [backgroundWindowPrefix, primaryWindowPanePrefix], P leader) ↔
      P backgroundWindowPrefix ∧ P primaryWindowPanePrefix := by simp
  rw [both]
  unfold parseCommand
  cases background : captures backgroundWindowPrefix line with
  | some captured =>
    dsimp only
    rw [parseIds_isSome_iff background, captures_primary_of_background background]
    exact ⟨fun fits => ⟨fun other same => Option.some_inj.mp same ▸ fits, fun _ => (nomatch ·)⟩,
      fun fits => fits.1 captured rfl⟩
  | none =>
    dsimp only
    cases primary : captures primaryWindowPanePrefix line with
    | some captured =>
      dsimp only
      rw [parseIds_isSome_iff primary]
      exact ⟨fun fits => ⟨fun _ => (nomatch ·), fun other same => Option.some_inj.mp same ▸ fits⟩,
        fun fits => fits.2 captured rfl⟩
    | none => exact iff_of_true rfl ⟨fun _ => (nomatch ·), fun _ => (nomatch ·)⟩

end Warp.Tmux
