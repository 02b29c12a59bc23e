import Warp.Vim.FsaRun

namespace Warp.Vim.VimFSA

variable {s s' : VimFSA} {key : Key} {keys : List Key} {event : Option VimEvent}

/-- The key completes an operation whose two counts multiply beyond `u32`. -/
def Overflows (s : VimFSA) : Key → Prop
  | .typed c => s.CharOverflows c
  | .press keystroke =>
    (keystroke = "backspace" ∧ s.CharOverflows backspaceChar) ∨ (keystroke = "delete" ∧ s.CharOverflows 'x')
  | _ => False

/-- No key of the run completes an operation whose counts overflow. -/
def CountsFit (s : VimFSA) : List Key → Prop
  | [] => True
  | key :: keys => ¬ s.Overflows key ∧ ∀ event s', s.step key = some (event, s') → CountsFit s' keys

theorem keypress_isSome (counted : s.Counted) {keystroke : String} (fits : ¬ s.Overflows (.press keystroke)) :
    (s.keypress keystroke).isSome := by
  unfold keypress
  split_ifs with escape backspace enter tab delete down up
  · cases s.mode <;> rfl
  · have typed := typedCharacter_isSome counted fun overflows => fits (.inl ⟨backspace, overflows⟩)
    cases s.mode <;> first | rfl | exact typed
  · cases s.mode <;> rfl
  · cases s.mode <;> rfl
  · have typed := typedCharacter_isSome counted fun overflows => fits (.inr ⟨delete, overflows⟩)
    cases s.mode <;> first | rfl | exact typed
  · cases s.mode <;> rfl
  · cases s.mode <;> rfl
  · rfl

theorem step_isSome (counted : s.Counted) (fits : ¬ s.Overflows key) : (s.step key).isSome := by
  cases key with
  | typed c => exact typedCharacter_isSome counted fits
  | press keystroke => exact keypress_isSome counted fits
  | interrupt => rfl
  | forceInsert => rfl

theorem run_isSome_from (sound : s.Sound) (fits : s.CountsFit keys) : (s.run keys).isSome := by
  induction keys generalizing s with
  | nil => rfl
  | cons key keys ih =>
    obtain ⟨fitsNow, fitsLater⟩ := fits
    obtain ⟨⟨event, next⟩, stepped⟩ := Option.isSome_iff_exists.mp (step_isSome sound.counted fitsNow)
    rw [run, stepped]
    exact ih (step_effect sound stepped).sound (fitsLater event next stepped)

/-- A run whose counts fit panics nowhere. -/
theorem run_total (keys : List Key) (fits : new.CountsFit keys) : (new.run keys).isSome :=
  run_isSome_from new_sound fits

/-- `d3w` deletes three words. -/
theorem run_total_d3w : (new.run [.press "escape", .typed 'd', .typed '3', .typed 'w']).isSome := by
  have escapes : ¬ new.Overflows (.press "escape") := by
    rintro (⟨isBackspace, -⟩ | ⟨isDelete, -⟩)
    · exact absurd isBackspace (by decide)
    · exact absurd isDelete (by decide)
  refine run_total _ ⟨escapes, ?_⟩
  rintro _ _ ⟨⟩
  refine ⟨fun overflows => overflows.2.1, ?_⟩
  rintro _ _ ⟨⟩
  refine ⟨fun overflows => absurd overflows.2.2.2 (by decide +kernel), ?_⟩
  rintro _ _ ⟨⟩
  exact ⟨fun overflows => absurd overflows.2.2.2 (by decide +kernel), fun _ _ _ => trivial⟩

/-- `99999d99999w` overflows the count of its event. -/
theorem counts_overflow : ¬ ∀ keys, (new.run keys).isSome := by
  intro total
  have panics : (new.run (.press "escape" :: ("99999d99999w".toList.map Key.typed))).isSome = false := by decide +kernel
  rw [total] at panics
  cases panics

/-- In insert and in replace mode nothing is pending, and an operand is counted for a pending operation only. -/
theorem run_pending (keys : List Key) (ran : new.run keys = some s) : (s.Typing → s.Clean) ∧ s.Counted :=
  ⟨(run_sound new_sound ran).clean, (run_sound new_sound ran).counted⟩

theorem run_pending_escaped : ∃ s, new.run [.press "escape", .typed 'd'] = some s ∧ (s.Typing → s.Clean) ∧ s.Counted :=
  ⟨_, rfl, run_pending [.press "escape", .typed 'd'] rfl⟩

/-- The key completes a command: it emits an event or changes the mode. -/
def Finishes (s : VimFSA) (event : Option VimEvent) (s' : VimFSA) : Prop := event.isSome ∨ s'.mode ≠ s.mode

theorem keepsPending_step (keeps : s.KeepsPending key) (stepped : s.step key = some (event, s')) :
    event.isSome ∧ ∃ mode, s' = { s with mode := mode } := by
  cases key with
  | typed c => exact keeps.elim
  | interrupt => exact keeps.elim
  | forceInsert => exact keeps.elim
  | press keystroke =>
    change s.keypress keystroke = some (event, s') at stepped
    unfold keypress at stepped
    rcases keeps with ⟨rfl, motionType, visual⟩ | ⟨isEnter, normal | ⟨motionType, visual⟩⟩
    · rw [if_pos rfl] at stepped
      simp only [visual] at stepped
      cases stepped
      exact ⟨rfl, .normal, rfl⟩
    all_goals
      have notEscape : keystroke ≠ "escape" := by
        rcases isEnter with rfl | rfl | rfl <;> decide
      have notBackspace : keystroke ≠ "backspace" := by
        rcases isEnter with rfl | rfl | rfl <;> decide
      rw [if_neg notEscape, if_neg notBackspace, if_pos isEnter] at stepped
    · simp only [normal] at stepped
      cases stepped
      exact ⟨rfl, s.mode, rfl⟩
    · simp only [visual] at stepped
      cases stepped
      exact ⟨rfl, s.mode, rfl⟩

/-- In every reachable state a key that finishes a command leaves nothing of it pending, except that enter in the command
modes and escape in visual mode leave what was pending before them. -/
theorem finishes_clean_iff (keys : List Key) (key : Key) (event : Option VimEvent) (ran : new.run keys = some s)
    (stepped : s.step key = some (event, s')) :
    (Finishes s event s' → s'.Clean) ↔ (s.KeepsPending key → s.Clean) := by
  have sound := run_sound new_sound ran
  by_cases keeps : s.KeepsPending key
  · obtain ⟨emitted, mode, rfl⟩ := keepsPending_step keeps stepped
    constructor
    · exact fun finishes _ => (finishes (.inl emitted)).withMode s.mode
    · exact fun clean _ => (clean keeps).withMode mode
  · refine ⟨fun _ kept => absurd kept keeps, fun _ finishes => ?_⟩
    cases step_effect sound stepped with
    | clears _ _ clean => exact clean
    | waits _ mode counted commands =>
      rcases finishes with emitted | changed
      · cases emitted
      · exact absurd mode changed
    | keeps event mode kept commands counted => exact absurd kept keeps

/-- `dw` deletes a word and leaves nothing pending. -/
theorem finishes_clean_dw :
    ∃ event s', (new.run [.press "escape", .typed 'd']).bind (·.step (.typed 'w')) = some (event, s') ∧
      ((Finishes ((new.run [.press "escape", .typed 'd']).getD new) event s' → s'.Clean) ↔
        (((new.run [.press "escape", .typed 'd']).getD new).KeepsPending (.typed 'w') →
          ((new.run [.press "escape", .typed 'd']).getD new).Clean)) :=
  ⟨_, _, rfl, finishes_clean_iff [.press "escape", .typed 'd'] (.typed 'w') _ rfl rfl⟩

/-- After `d` and enter the deletion is still pending, and a later `w` deletes a word. -/
theorem enter_keeps_deletion :
    ¬ ∀ (keys : List Key) (key : Key) (s s' : VimFSA) (event : Option VimEvent), new.run keys = some s →
        s.step key = some (event, s') → Finishes s event s' → s'.Clean := by
  intro clean
  have cleared := clean [.press "escape", .typed 'd'] (.press "enter") _ _ _ rfl rfl (.inl rfl)
  have pending := cleared.action
  cases pending

end Warp.Vim.VimFSA
