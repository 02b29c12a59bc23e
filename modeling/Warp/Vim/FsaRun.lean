import Warp.Vim.FsaOutcome

namespace Warp.Vim.VimFSA

variable {s s' : VimFSA} {c : Char} {key : Key} {event : Option VimEvent}

theorem parseU32_lt {digits : Str} {value : ℕ} (parsed : parseU32 digits = some value) : value < 2 ^ 32 := by
  unfold parseU32 at parsed
  dsimp only at parsed
  split_ifs at parsed with digits fits
  cases parsed
  exact fits

theorem getActionCount_lt (s : VimFSA) : s.getActionCount.getD 1 < 2 ^ 32 := by
  unfold getActionCount
  cases parsed : s.pendingActionCount.bind parseU32 with
  | none => decide
  | some value =>
    obtain ⟨digits, -, isValue⟩ := Option.bind_eq_some_iff.mp parsed
    exact parseU32_lt isValue

def countProduct (s : VimFSA) : ℕ := s.getActionCount.getD 1 * s.getOperandCount.getD 1

theorem countProduct_lt (uncounted : s.pendingOperandCount = none) : s.countProduct < 2 ^ 32 := by
  unfold countProduct getOperandCount
  rw [uncounted, Option.bind_none, Option.getD_none, Nat.mul_one]
  exact s.getActionCount_lt

theorem computeEventCount_isSome (type : VimEventType) (fits : s.countProduct < 2 ^ 32) :
    (s.computeEventCount c type).isSome := by
  unfold computeEventCount
  split
  · rfl
  · rfl
  · unfold countProduct at fits
    dsimp only
    rw [if_pos fits]
    rfl

structure Clean (s : VimFSA) : Prop where
  showcmd : s.showcmd = []
  action : s.pendingAction = none
  actionCount : s.pendingActionCount = none
  operandCount : s.pendingOperandCount = none
  visualObject : s.pendingVisualObject = none
  register : s.register = '"'

theorem clear_clean (s : VimFSA) : s.clear.Clean := ⟨rfl, rfl, rfl, rfl, rfl, rfl⟩

theorem Clean.withMode (clean : s.Clean) (mode : VimMode) : Clean { s with mode := mode } :=
  ⟨clean.1, clean.2, clean.3, clean.4, clean.5, clean.6⟩

theorem Clean.withDotRepeat (clean : s.Clean) (event : Option VimEvent) : Clean { s with dotRepeatEvent := event } :=
  ⟨clean.1, clean.2, clean.3, clean.4, clean.5, clean.6⟩

theorem Clean.mapDotRepeatText (clean : s.Clean) (edit : Str → Str) : (s.mapDotRepeatText edit).Clean := by
  unfold VimFSA.mapDotRepeatText
  split
  · exact clean.withDotRepeat _
  · exact clean.withDotRepeat _
  · exact clean

def Typing (s : VimFSA) : Prop := s.mode = .insert ∨ s.mode = .replace

structure Sound (s : VimFSA) : Prop where
  counted : s.Counted
  clean : s.Typing → s.Clean

theorem new_sound : new.Sound := ⟨.inl rfl, fun _ => ⟨rfl, rfl, rfl, rfl, rfl, rfl⟩⟩

theorem Clean.sound (clean : s.Clean) : s.Sound := ⟨.inl clean.operandCount, fun _ => clean⟩

theorem typing_idle (typing : s.Typing) (counted : s.Counted) : s.Idle := by
  have notPending : ¬ s.OperationPending := by
    rintro ⟨normal, -⟩
    rcases typing with mode | mode <;> rw [mode] at normal <;> cases normal
  exact ⟨counted.resolve_right notPending, notPending⟩

theorem handle_outcome (counted : s.Counted) : Outcome s c (s.handle c) := by
  unfold handle
  cases mode : s.mode with
  | insert =>
    have idle := typing_idle (.inl mode) counted
    show Outcome s c ((s.mapDotRepeatText (· ++ [c])).emit (.insertChar c))
    unfold mapDotRepeatText
    split <;> exact .event idle _ rfl rfl
  | replace => exact .event (typing_idle (.inr mode) counted) _ rfl rfl
  | visual motionType => exact handleVisualCommand_outcome (visual_idle mode counted)
  | normal =>
    cases pending : s.pendingAction with
    | some action => exact handleNormalPendingAction_outcome mode pending counted
    | none =>
      have notPending : ¬ s.OperationPending := by
        rintro ⟨-, operator, operand, isOperation⟩
        rw [pending] at isOperation
        cases isOperation
      exact handleNormalNothingPending_outcome ⟨counted.resolve_right notPending, notPending⟩

theorem typedCharacter_cases (counted : s.Counted) (typed : s.typedCharacter c = some (event, s')) :
    (event.isSome ∧ s'.Clean) ∨ (event = none ∧ s'.mode = s.mode ∧ s'.Counted) := by
  unfold typedCharacter at typed
  have outcome : Outcome { s with showcmd := s.showcmd ++ [c] } c (VimFSA.handle { s with showcmd := s.showcmd ++ [c] } c) :=
    handle_outcome counted
  generalize VimFSA.handle { s with showcmd := s.showcmd ++ [c] } c = handled at typed outcome
  cases outcome with
  | emits type after action operand completes =>
    left
    obtain ⟨count, -, isOutcome⟩ := Option.map_eq_some_iff.mp typed
    cases isOutcome
    exact ⟨rfl, (clear_clean after).withDotRepeat _⟩
  | waits after mode counted =>
    right
    cases typed
    exact ⟨rfl, mode, counted⟩

/-- The counts of the pending operation that a character completes leave `u32`. -/
def CharOverflows (s : VimFSA) (c : Char) : Prop :=
  s.OperationPending ∧ s.Completes c ∧ c ≠ '.' ∧ 2 ^ 32 ≤ s.countProduct

theorem typedCharacter_isSome (counted : s.Counted) (fits : ¬ s.CharOverflows c) : (s.typedCharacter c).isSome := by
  unfold typedCharacter
  have outcome : Outcome { s with showcmd := s.showcmd ++ [c] } c (VimFSA.handle { s with showcmd := s.showcmd ++ [c] } c) :=
    handle_outcome counted
  generalize VimFSA.handle { s with showcmd := s.showcmd ++ [c] } c = handled at outcome
  cases outcome with
  | waits after mode counted => rfl
  | emits type after action operand completes =>
    have same : after.countProduct = s.countProduct := by
      simp only [countProduct, getActionCount, getOperandCount, action, operand]
    have counts : (after.computeEventCount c type).isSome := by
      by_cases dot : c = '.'
      · subst dot
        unfold computeEventCount
        rfl
      · apply computeEventCount_isSome type
        rw [same]
        rcases counted with uncounted | pending
        · exact countProduct_lt uncounted
        · exact Nat.lt_of_not_le fun large => fits ⟨pending, completes pending, dot, large⟩
    rw [Option.bind_some, Option.isSome_map]
    exact counts

def InCommandMode (s : VimFSA) : Prop := s.mode = .normal ∨ ∃ motionType, s.mode = .visual motionType

def KeepsPending (s : VimFSA) : Key → Prop
  | .press keystroke =>
    (keystroke = "escape" ∧ ∃ motionType, s.mode = .visual motionType) ∨
      ((keystroke = "enter" ∨ keystroke = "shift-enter" ∨ keystroke = "numpadenter") ∧ s.InCommandMode)
  | _ => False

inductive Effect (s : VimFSA) (key : Key) : Option VimEvent → VimFSA → Prop
  | clears (event : Option VimEvent) (s' : VimFSA) (clean : s'.Clean) : Effect s key event s'
  | waits (s' : VimFSA) (mode : s'.mode = s.mode) (counted : s'.Counted) (commands : s.InCommandMode) :
      Effect s key none s'
  | keeps (event : VimEvent) (mode : VimMode) (keeps : s.KeepsPending key) (commands : InCommandMode { s with mode := mode })
      (counted : Counted { s with mode := mode }) : Effect s key (some event) { s with mode := mode }

theorem inCommandMode_of_not_typing (other : ¬ s.Typing) : s.InCommandMode := by
  cases mode : s.mode with
  | insert => exact absurd (.inl mode) other
  | replace => exact absurd (.inr mode) other
  | normal => exact .inl mode
  | visual motionType => exact .inr ⟨motionType, mode⟩

theorem not_typing (commands : s.InCommandMode) : ¬ s.Typing := by
  rintro (mode | mode) <;> rcases commands with normal | ⟨_, visual⟩ <;> simp_all

theorem typedCharacter_effect (sound : s.Sound) (commands : s.InCommandMode)
    (typed : s.typedCharacter c = some (event, s')) : Effect s key event s' := by
  rcases typedCharacter_cases sound.counted typed with ⟨-, clean⟩ | ⟨rfl, mode, counted⟩
  · exact .clears event s' clean
  · exact .waits s' mode counted commands

theorem exitInsertMode_clean (clean : s.Clean) : s.exitInsertMode.2.Clean := by
  unfold exitInsertMode
  split
  · rename_i count _
    by_cases many : 1 < count
    · rw [if_pos many]
      exact clean.withMode _
    · rw [if_neg many]
      exact clean.withMode _
  · exact clean.withMode _

theorem handleInsertModeDelete_clean (clean : s.Clean) : s.handleInsertModeDelete.2.Clean := by
  unfold handleInsertModeDelete
  dsimp only
  split_ifs
  · exact clean.withDotRepeat _
  · exact clean

theorem keypress_effect (sound : s.Sound) {keystroke : String} (pressed : s.keypress keystroke = some (event, s')) :
    Effect s (.press keystroke) event s' := by
  unfold keypress at pressed
  split_ifs at pressed with escape backspace enter tab delete down up
  · cases mode : s.mode with
    | normal =>
      simp only [mode] at pressed
      cases pressed
      exact .clears _ _ s.clear_clean
    | replace =>
      simp only [mode] at pressed
      cases pressed
      exact .clears _ _ ((sound.clean (.inr mode)).withMode _)
    | insert =>
      simp only [mode] at pressed
      cases pressed
      exact .clears _ _ (exitInsertMode_clean (sound.clean (.inl mode)))
    | visual motionType =>
      simp only [mode] at pressed
      cases pressed
      exact .keeps _ .normal (.inl ⟨escape, motionType, mode⟩) (.inl rfl)
        (.inl (visual_idle mode sound.counted).uncounted)
  · cases mode : s.mode with
    | insert =>
      simp only [mode] at pressed
      cases pressed
      exact .clears _ _ ((sound.clean (.inl mode)).mapDotRepeatText _)
    | replace =>
      simp only [mode] at pressed
      cases pressed
      exact .clears _ _ ((sound.clean (.inr mode)).withMode _)
    | normal =>
      simp only [mode] at pressed
      exact typedCharacter_effect sound (.inl mode) pressed
    | visual motionType =>
      simp only [mode] at pressed
      exact typedCharacter_effect sound (.inr ⟨motionType, mode⟩) pressed
  · cases mode : s.mode with
    | insert =>
      simp only [mode] at pressed
      cases pressed
      exact .clears _ _ (sound.clean (.inl mode))
    | replace =>
      simp only [mode] at pressed
      cases pressed
      exact .clears _ _ ((sound.clean (.inr mode)).withMode _)
    | normal =>
      simp only [mode] at pressed
      cases pressed
      exact .keeps _ s.mode (.inr ⟨enter, .inl mode⟩) (.inl mode) sound.counted
    | visual motionType =>
      simp only [mode] at pressed
      cases pressed
      exact .keeps _ s.mode (.inr ⟨enter, .inr ⟨motionType, mode⟩⟩) (.inr ⟨motionType, mode⟩) sound.counted
  · by_cases typing : s.Typing
    · have clean := sound.clean typing
      cases mode : s.mode <;> simp only [mode] at pressed <;> cases pressed <;> exact .clears _ _ clean
    · have commands := inCommandMode_of_not_typing typing
      cases mode : s.mode with
      | insert => exact absurd (.inl mode) typing
      | normal | visual | replace =>
        simp only [mode] at pressed
        cases pressed
        exact .waits _ rfl sound.counted commands
  · cases mode : s.mode with
    | insert =>
      simp only [mode] at pressed
      cases pressed
      exact .clears _ _ (handleInsertModeDelete_clean (sound.clean (.inl mode)))
    | replace =>
      simp only [mode] at pressed
      cases pressed
      exact .clears _ _ ((sound.clean (.inr mode)).withMode _)
    | normal =>
      simp only [mode] at pressed
      exact typedCharacter_effect sound (.inl mode) pressed
    | visual motionType =>
      simp only [mode] at pressed
      exact typedCharacter_effect sound (.inr ⟨motionType, mode⟩) pressed
  all_goals
    by_cases typing : s.Typing
    · have clean := sound.clean typing
      first
        | (cases pressed; exact .clears _ _ clean)
        | (cases mode : s.mode <;> simp only [mode] at pressed <;> cases pressed <;>
            first | exact .clears _ _ clean | exact .clears _ _ s.clear_clean)
    · have commands := inCommandMode_of_not_typing typing
      first
        | (cases pressed; exact .waits _ rfl sound.counted commands)
        | (cases mode : s.mode <;> simp only [mode] at pressed <;> cases pressed <;>
            first | exact .clears _ _ s.clear_clean | exact .waits _ rfl sound.counted commands)

theorem typedCharacter_event (typing : s.Typing) (typed : s.typedCharacter c = some (event, s')) : event.isSome := by
  unfold typedCharacter handle at typed
  rcases typing with mode | mode
  all_goals
    simp only [mode] at typed
    obtain ⟨count, -, isOutcome⟩ := Option.map_eq_some_iff.mp typed
    cases isOutcome
    rfl

theorem step_effect (sound : s.Sound) (stepped : s.step key = some (event, s')) : Effect s key event s' := by
  cases key with
  | typed c =>
    by_cases typing : s.Typing
    · rcases typedCharacter_cases sound.counted stepped with ⟨-, clean⟩ | ⟨rfl, mode, counted⟩
      · exact .clears event s' clean
      · exact absurd (typedCharacter_event typing stepped) Bool.false_ne_true
    · exact typedCharacter_effect sound (inCommandMode_of_not_typing typing) stepped
  | press keystroke => exact keypress_effect sound stepped
  | interrupt =>
    cases stepped
    unfold interrupt
    split
    · exact .clears _ _ (s.clear_clean.withMode _)
    · exact .clears _ _ (s.clear_clean.withMode _)
    · exact .clears _ _ s.clear_clean
    · exact .clears _ _ s.clear_clean
  | forceInsert =>
    cases stepped
    exact .clears _ _ (s.clear_clean.withMode _)

theorem Effect.sound (effect : Effect s key event s') : s'.Sound := by
  cases effect with
  | clears _ _ clean => exact clean.sound
  | waits _ mode counted commands =>
    refine ⟨counted, fun typing => absurd ?_ (not_typing commands)⟩
    unfold Typing at typing ⊢
    rwa [mode] at typing
  | keeps event mode keeps commands counted => exact ⟨counted, fun typing => absurd typing (not_typing commands)⟩

theorem run_sound (sound : s.Sound) {keys : List Key} (ran : s.run keys = some s') : s'.Sound := by
  induction keys generalizing s with
  | nil =>
    cases ran
    exact sound
  | cons key keys ih =>
    obtain ⟨⟨event, next⟩, stepped, later⟩ := Option.bind_eq_some_iff.mp ran
    exact ih (step_effect sound stepped).sound later

end Warp.Vim.VimFSA
