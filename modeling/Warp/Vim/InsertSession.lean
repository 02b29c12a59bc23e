import Warp.Vim.FsaRun

namespace Warp.Vim

open List

inductive InsertKey
  | char (c : Char)
  | enter
  | tab
  | backspace
  deriving DecidableEq, Repr

namespace InsertKey

def key : InsertKey → Key
  | char c => .typed c
  | enter => .press "enter"
  | tab => .press "tab"
  | backspace => .press "backspace"

def edit (text : Str) : InsertKey → Str
  | char c => text ++ [c]
  | enter => text ++ ['\n']
  | tab => text ++ ['\t']
  | backspace => text.dropLast

/-- What the automaton does to the text it collects. -/
def record (text : Str) : InsertKey → Str
  | char c => text ++ [c]
  | enter | tab => text
  | backspace => text.dropLast

def Recorded (key : InsertKey) : Prop := key ≠ enter ∧ key ≠ tab

end InsertKey

def produced (keys : List InsertKey) : Str := keys.foldl InsertKey.edit []

def recorded (text : Str) (keys : List InsertKey) : Str := keys.foldl InsertKey.record text

/-- From some point at which the session has no text on, neither enter nor tab is pressed. -/
def AllRecorded (keys : List InsertKey) : Prop :=
  ∃ before after, keys = before ++ after ∧ produced before = [] ∧ ∀ key ∈ after, key.Recorded

namespace VimEvent

/-- The text that the event inserts at once, and how often. -/
def inserted (event : VimEvent) : Option (Str × ℕ) :=
  match event.eventType with
  | .insertText text _ => some (text, event.count)
  | _ => none

def furtherCopies (entry : VimEvent) : Option ℕ :=
  match entry.eventType with
  | .changeMode ⟨.insert, _⟩ _ => if 1 < entry.count then some (entry.count - 1) else none
  | _ => none

/-- The event that does the entering change again, with a text. -/
def again (text : Str) (entry : VimEvent) : Option VimEvent :=
  match entry.eventType with
  | .changeMode ⟨.insert, position⟩ _ => some ⟨.insertText text position, entry.count⟩
  | .operation .change operand register _ => some ⟨.operation .change operand register text, entry.count⟩
  | _ => none

end VimEvent

namespace VimFSA

/-- A session begins, at a command that enters insert mode or at a forced switch. -/
inductive Enters (s : VimFSA) : Option VimEvent → VimFSA → Prop
  | command (c : Char) (event : VimEvent) (s' : VimFSA) (outside : s.mode ≠ .insert)
      (typed : s.typedCharacter c = some (some event, s')) (inside : s'.mode = .insert) : Enters s (some event) s'
  | forced : Enters s none s.forceInsertMode

/-- Escape and a following dot do what the entering command and the text of the session call for. -/
def Exact (entry : Option VimEvent) (entered : VimFSA) (keys : List InsertKey) : Prop :=
  ∃ typed event ended, entered.run (keys.map InsertKey.key) = some typed ∧
    typed.step (.press "escape") = some (some event, ended) ∧
    event.inserted = (entry.bind VimEvent.furtherCopies).map (produced keys, ·) ∧
    ∀ change, entry.bind (VimEvent.again (produced keys)) = some change →
      ∃ after, ended.step (.typed '.') = some (some change, after)

/-- The session was entered by a command that a dot does again. -/
def Repeatable (entry : Option VimEvent) : Prop := (entry.bind (·.eventType.forDotRepeat)).isSome

/-- The stored event inserts a text more than once. -/
def InsertionStored (s : VimFSA) : Prop :=
  ∃ text position count, s.dotRepeatEvent = some ⟨.insertText text position, count⟩ ∧ 1 < count

theorem length_recorded_le (keys : List InsertKey) :
    recorded [] keys = produced keys ∨ (recorded [] keys).length < (produced keys).length := by
  induction keys using List.reverseRecOn with
  | nil => exact .inl rfl
  | append_singleton keys key ih =>
    simp only [recorded, produced, foldl_append, foldl_cons, foldl_nil] at ih ⊢
    generalize keys.foldl InsertKey.record [] = collected at ih ⊢
    generalize keys.foldl InsertKey.edit [] = text at ih ⊢
    rcases ih with rfl | shorter
    · cases key with
      | char | backspace => exact .inl rfl
      | enter | tab => simp [InsertKey.record, InsertKey.edit]
    · cases key with
      | char | enter | tab => simp [InsertKey.record, InsertKey.edit]; omega
      | backspace =>
        -- the two texts meet again only where nothing is left of both
        by_cases last : text.length = 1
        · have none' : collected = [] := eq_nil_of_length_eq_zero (by omega)
          obtain ⟨c, rfl⟩ := length_eq_one_iff.mp last
          simp [none', InsertKey.record, InsertKey.edit]
        · simp [InsertKey.record, InsertKey.edit]
          omega

theorem recorded_eq_of_recorded {keys : List InsertKey} (all : ∀ key ∈ keys, key.Recorded) (text : Str) :
    keys.foldl InsertKey.edit text = recorded text keys := by
  induction keys generalizing text with
  | nil => rfl
  | cons key keys ih =>
    have same : key.edit text = key.record text := by
      cases key with
      | enter => exact absurd rfl (all _ mem_cons_self).1
      | tab => exact absurd rfl (all _ mem_cons_self).2
      | char | backspace => rfl
    rw [foldl_cons, same]
    exact ih (fun key member => all key (mem_cons_of_mem _ member)) _

theorem recorded_eq_produced_iff (keys : List InsertKey) : recorded [] keys = produced keys ↔ AllRecorded keys := by
  constructor
  · intro same
    induction keys using List.reverseRecOn with
    | nil => exact ⟨[], [], rfl, rfl, by simp⟩
    | append_singleton keys key ih =>
      have extend (isRecorded : key.Recorded) (earlier : recorded [] keys = produced keys) : AllRecorded (keys ++ [key]) := by
        obtain ⟨before, after, rfl, bare, all⟩ := ih earlier
        refine ⟨before, after ++ [key], by simp, bare, fun k member => ?_⟩
        rcases mem_append.mp member with old | new
        · exact all k old
        · exact mem_singleton.mp new ▸ isRecorded
      have shorter := length_recorded_le keys
      have step : key.record (recorded [] keys) = key.edit (produced keys) := by
        simpa [recorded, produced] using same
      cases key with
      | char c => exact extend ⟨nofun, nofun⟩ (append_left_injective _ step)
      | enter | tab =>
        have lengths := congrArg List.length step
        have atMost : (recorded [] keys).length ≤ (produced keys).length :=
          shorter.elim (fun same => same ▸ Nat.le_refl _) Nat.le_of_lt
        simp only [InsertKey.record, InsertKey.edit, length_append, length_singleton] at lengths
        omega
      | backspace =>
        rcases shorter with earlier | shorter
        · exact extend ⟨nofun, nofun⟩ earlier
        · have lengths := congrArg List.length step
          simp only [InsertKey.record, InsertKey.edit, length_dropLast] at lengths
          have bare : produced (keys ++ [.backspace]) = [] := by
            simp only [produced, foldl_append, foldl_cons, foldl_nil]
            exact eq_nil_of_length_eq_zero (by
              simp only [InsertKey.edit, length_dropLast]
              unfold produced at lengths shorter
              omega)
          exact ⟨keys ++ [.backspace], [], by simp, bare, by simp⟩
  · rintro ⟨before, after, rfl, bare, all⟩
    have none' : recorded [] before = [] := by
      rcases length_recorded_le before with same | shorter
      · rw [same, bare]
      · rw [bare] at shorter
        exact absurd shorter (Nat.not_lt_zero _)
    have split : produced (before ++ after) = after.foldl InsertKey.edit (produced before) := foldl_append ..
    rw [split, bare, recorded_eq_of_recorded all]
    unfold recorded at none' ⊢
    rw [foldl_append, none']

section Entry

variable {s : VimFSA} {c : Char} {P : VimEventType → VimFSA → Prop}

/-- What holds of the event that a handler emits and of the state it leaves. -/
def Emits (P : VimEventType → VimFSA → Prop) (handled : Handled VimEventType) : Prop :=
  ∀ event s', handled = some (some event, s') → P event s'

namespace Emits

theorem emit {event : VimEventType} (holds : P event s) : Emits P (s.emit event) := by
  rintro _ _ ⟨⟩
  exact holds

theorem wait : Emits P s.wait := by
  rintro _ _ ⟨⟩

theorem bind {β : Type} {found : Option β} {use : β → Handled VimEventType} (each : ∀ value, Emits P (use value)) :
    Emits P (found.bind use) := by
  cases found with
  | none => rintro _ _ ⟨⟩
  | some value => exact each value

theorem ite {p : Prop} [Decidable p] {handled other : Handled VimEventType} (yes : Emits P handled)
    (no : Emits P other) : Emits P (if p then handled else other) := by
  split_ifs
  · exact yes
  · exact no

theorem repeatFind {change : FindCharMotion → FindCharMotion} {use : VimFSA → FindCharMotion → Handled VimEventType}
    (each : ∀ motion, Emits P (use s motion)) : Emits P (s.repeatFind change use) := by
  unfold VimFSA.repeatFind
  split
  · exact each _
  · exact wait

end Emits

def Operates (operator : VimOperator) (stored : Option VimEvent) (event : VimEventType) (s : VimFSA) : Prop :=
  s.dotRepeatEvent = stored ∧ (∃ operand register, event = .operation operator operand register []) ∧ s.mode ≠ .insert

inductive EntryEvent : VimEventType → Prop
  | command (position : InsertPosition) (old : VimMode) : EntryEvent (.changeMode ⟨.insert, position⟩ old)
  | change (operand : VimOperand) (register : Char) : EntryEvent (.operation .change operand register [])
  | visual (motionType : MotionType) (register : Char) : EntryEvent (.visualOperator .change motionType register)

/-- The stored event stays, and an event that leaves the automaton in insert mode is an entry event. -/
def Guarded (stored : Option VimEvent) (event : VimEventType) (s : VimFSA) : Prop :=
  s.dotRepeatEvent = stored ∧ (s.mode = .insert → EntryEvent event)

abbrev Guards (s : VimFSA) (handled : Handled VimEventType) : Prop := Emits (Guarded s.dotRepeatEvent) handled

theorem emitMode_guarded {transition : ModeTransition} : s.Guards (s.emitMode transition) := by
  obtain ⟨mode, position⟩ := transition
  refine .emit ⟨rfl, fun (inside : mode = .insert) => ?_⟩
  subst inside
  exact .command _ _

theorem enterInsert_guarded {operator : VimOperator} {stored : Option VimEvent} {handled : Handled VimEventType}
    (operates : Emits (Operates operator stored) handled) : Emits (Guarded stored) (enterInsert operator handled) := by
  match handled with
  | none | some (none, _) => rintro _ _ ⟨⟩
  | some (some event, s) =>
    obtain ⟨kept, ⟨operand, register, rfl⟩, outside⟩ := operates event s rfl
    rintro _ _ ⟨⟩
    by_cases change : operator = .change
    · subst change
      exact ⟨kept, fun _ => .change operand register⟩
    · rw [if_neg change]
      exact ⟨kept, fun inside => absurd inside outside⟩

theorem createVisualOperator_change (changes : ['c', 'C', 's', 'S'].contains c) (motionType : MotionType) :
    ∃ motionType', s.createVisualOperator c motionType = some (.visualOperator .change motionType' s.register) := by
  simp only [contains_cons, contains_nil, Bool.or_false, Bool.or_eq_true, beq_iff_eq] at changes
  rcases changes with rfl | rfl | rfl | rfl <;> exact ⟨_, rfl⟩

theorem operate_emits {operator : VimOperator} {operand : VimOperand} (outside : s.mode ≠ .insert) :
    Emits (Operates operator s.dotRepeatEvent) (s.operate operator operand) := .emit ⟨rfl, ⟨_, _, rfl⟩, outside⟩

theorem emit_guarded {event : VimEventType} (outside : s.mode ≠ .insert) : s.Guards (s.emit event) :=
  .emit ⟨rfl, fun inside => absurd inside outside⟩

section Outside

variable (outside : s.mode ≠ .insert)
include outside

theorem handleNormalPendingOperand_emits {operator : VimOperator} (operand : PendingOperand) :
    Emits (Operates operator s.dotRepeatEvent) (s.handleNormalPendingOperand c operator operand) := by
  cases operand <;> unfold handleNormalPendingOperand
  all_goals
    repeat' first | exact operate_emits outside | exact .wait | apply Emits.ite | refine .bind fun _ => ?_

theorem handleNormalPendingOperation_emits {operator : VimOperator} :
    Emits (Operates operator s.dotRepeatEvent) (s.handleNormalPendingOperation c operator) := by
  unfold handleNormalPendingOperation
  repeat' first
    | exact operate_emits outside | exact .wait | apply Emits.ite | refine .bind fun _ => ?_
    | refine .repeatFind fun _ => ?_ | split

theorem handleMotion_guarded {other : Handled VimEventType} (rest : s.Guards other) :
    s.Guards (s.handleMotion c other) := by
  unfold handleMotion
  repeat' first
    | exact rest | exact emit_guarded outside | exact .wait | apply Emits.ite | refine .bind fun _ => ?_
    | refine .repeatFind fun _ => ?_ | split

theorem handleNormalNothingPending_guarded : s.Guards (s.handleNormalNothingPending c) := by
  refine handleMotion_guarded outside ?_
  repeat' first
    | exact emitMode_guarded | exact emit_guarded outside | exact .emit ⟨rfl, fun _ => .change _ _⟩ | exact .wait
    | apply Emits.ite | refine .bind fun _ => ?_ | split

theorem handleNormalPendingAction_guarded (action : PendingAction) :
    s.Guards (s.handleNormalPendingAction c action) := by
  cases action with
  | operation operator operand =>
    cases operand with
    | none => exact enterInsert_guarded (handleNormalPendingOperation_emits outside)
    | some operand => exact enterInsert_guarded (handleNormalPendingOperand_emits outside operand)
  | g | z | findChar | squareBracket | setRegister =>
    unfold handleNormalPendingAction
    repeat' first
      | exact emit_guarded outside | exact .wait | apply Emits.ite | refine .bind fun _ => ?_

theorem handleVisualPendingAction_guarded (action : PendingAction) :
    s.Guards (s.handleVisualPendingAction c action) := by
  cases action <;> unfold handleVisualPendingAction
  all_goals
    repeat' first
      | exact emit_guarded outside | exact .emit ⟨rfl, nofun⟩ | exact .wait | apply Emits.ite | refine .bind fun _ => ?_

theorem handleVisualNothingPending_guarded (motionType : MotionType) :
    s.Guards (s.handleVisualNothingPending c motionType) := by
  refine handleMotion_guarded outside ?_
  refine .ite (.bind fun _ => .emit ⟨rfl, nofun⟩) ?_
  split
  · rename_i changes
    obtain ⟨motionType', created⟩ := createVisualOperator_change (s := s) changes motionType
    rw [created]
    exact .emit ⟨rfl, fun _ => .visual _ _⟩
  · repeat' first
      | exact emitMode_guarded | exact .emit ⟨rfl, nofun⟩ | exact .wait | apply Emits.ite | refine .bind fun _ => ?_

end Outside

theorem handleVisualCommand_guarded {motionType : MotionType} (visual : s.mode = .visual motionType) :
    s.Guards (s.handleVisualCommand c motionType) := by
  have outside : s.mode ≠ .insert := by simp [visual]
  unfold handleVisualCommand
  split
  · exact handleVisualPendingAction_guarded outside _
  · refine .ite (.bind fun _ => .emit ⟨rfl, fun inside => ?_⟩) .wait
    dsimp only at inside
    split_ifs at inside
    exact absurd inside outside
  · exact handleVisualNothingPending_guarded outside _

theorem handle_guarded (outside : s.mode ≠ .insert) : s.Guards (s.handle c) := by
  unfold handle
  split
  · exact absurd ‹_› outside
  · split
    · exact handleNormalPendingAction_guarded outside _
    · exact handleNormalNothingPending_guarded outside
  · exact handleVisualCommand_guarded ‹_›
  · exact emit_guarded (by simp)

end Entry

section Session

variable {s s' : VimFSA} {entry : Option VimEvent}

/-- What entering leaves behind: nothing is pending, and a repeatable change is stored without a text. -/
structure Entered (s : VimFSA) (entry : Option VimEvent) (s' : VimFSA) : Prop where
  mode : s'.mode = .insert
  clean : s'.Clean
  stored : s'.dotRepeatEvent = (entry.bind (VimEvent.again [])).or s.dotRepeatEvent
  entry : ∀ event, entry = some event → EntryEvent event.eventType

theorem Enters.entered (enters : s.Enters entry s') : s.Entered entry s' := by
  cases enters with
  | forced => exact ⟨rfl, s.clear_clean.withMode _, rfl, fun _ same => absurd same (by simp)⟩
  | command c event s' outside typed inside =>
    obtain ⟨⟨type, handled⟩, isHandled, rest⟩ := Option.bind_eq_some_iff.mp typed
    cases type with
    | none => cases rest
    | some type =>
      obtain ⟨count, -, same⟩ := Option.map_eq_some_iff.mp rest
      cases same
      have guarded := handle_guarded (s := { s with showcmd := s.showcmd ++ [c] }) outside type handled isHandled
      have isEntry := guarded.2 inside
      refine ⟨inside, handled.clear_clean.withDotRepeat _, ?_, fun _ same => Option.some.inj same ▸ isEntry⟩
      dsimp only
      rw [guarded.1]
      cases isEntry <;> rfl

/-- The event with its text edited, if it is one that collects a text. -/
def editText (edit : Str → Str) : VimEvent → VimEvent
  | ⟨.insertText text position, count⟩ => ⟨.insertText (edit text) position, count⟩
  | ⟨.operation .change operand register text, count⟩ => ⟨.operation .change operand register (edit text), count⟩
  | event => event

theorem mapDotRepeatText_eq (s : VimFSA) (edit : Str → Str) :
    s.mapDotRepeatText edit = { s with dotRepeatEvent := s.dotRepeatEvent.map (editText edit) } := by
  obtain ⟨mode, showcmd, action, actionCount, operandCount, object, find, register, event⟩ := s
  rcases event with - | ⟨type, count⟩
  · rfl
  · cases type with
    | operation operator operand register text => cases operator <;> rfl
    | _ => rfl

theorem mapDotRepeatText_id (s : VimFSA) : s.mapDotRepeatText (fun text => text) = s := by
  have same : editText (fun text => text) = id := by
    funext event
    unfold editText
    split <;> rfl
  rw [mapDotRepeatText_eq, same, Option.map_id, id]

theorem mapDotRepeatText_comp (s : VimFSA) (first second : Str → Str) :
    (s.mapDotRepeatText first).mapDotRepeatText second = s.mapDotRepeatText fun text => second (first text) := by
  have same : editText second ∘ editText first = editText fun text => second (first text) := by
    funext ⟨type, count⟩
    cases type with
    | operation operator operand register text => cases operator <;> rfl
    | _ => rfl
  simp only [mapDotRepeatText_eq, Option.map_map, same]

theorem mapDotRepeatText_mode (s : VimFSA) (edit : Str → Str) : (s.mapDotRepeatText edit).mode = s.mode := by
  rw [mapDotRepeatText_eq]

theorem Clean.eq_mk (clean : s.Clean) :
    s = ⟨s.mode, [], none, none, none, none, s.lastFindMotion, '"', s.dotRepeatEvent⟩ := by
  obtain ⟨mode, showcmd, action, actionCount, operandCount, object, find, register, event⟩ := s
  obtain ⟨(rfl : showcmd = _), (rfl : action = _), (rfl : actionCount = _), (rfl : operandCount = _), (rfl : object = _),
    (rfl : register = _)⟩ := clean
  rfl

theorem step_key (inside : s.mode = .insert) (clean : s.Clean) (key : InsertKey) :
    ∃ event, s.step key.key = some (event, s.mapDotRepeatText (InsertKey.record · key)) := by
  cases key with
  | char c =>
    rw [clean.eq_mk, inside]
    show ∃ out, typedCharacter _ c = _
    unfold typedCharacter
    simp only [handle, handleInsertChar, mapDotRepeatText_eq, emit, Option.bind_some]
    obtain ⟨count, isCount⟩ := Option.isSome_iff_exists.mp
      (computeEventCount_isSome (s := ⟨.insert, [] ++ [c], none, none, none, none, s.lastFindMotion, '"',
        s.dotRepeatEvent.map (editText fun text => text ++ [c])⟩) (c := c) (.insertChar c) (show 1 * 1 < 2 ^ 32 by decide))
    rw [isCount]
    exact ⟨_, rfl⟩
  | enter | tab =>
    simp only [InsertKey.record, mapDotRepeatText_id]
    simp [step, InsertKey.key, keypress, inside, once]
  | backspace =>
    refine ⟨some (.once .backspace), ?_⟩
    simp [step, InsertKey.key, keypress, inside, once, handleInsertModeBackspace]
    rfl

theorem run_keys (inside : s.mode = .insert) (clean : s.Clean) (keys : List InsertKey) :
    s.run (keys.map InsertKey.key) = some (s.mapDotRepeatText (recorded · keys)) := by
  induction keys generalizing s with
  | nil => exact congrArg some s.mapDotRepeatText_id.symm
  | cons key keys ih =>
    obtain ⟨event, stepped⟩ := step_key inside clean key
    rw [map_cons, run, stepped, Option.bind_some, ih ((s.mapDotRepeatText_mode _).trans inside) (clean.mapDotRepeatText _),
      mapDotRepeatText_comp]
    rfl

/-- What leaving the mode inserts on account of the stored event. -/
def VimEvent.leftOver (event : VimEvent) : Option (Str × ℕ) :=
  match event with
  | ⟨.insertText text _, count⟩ => if 1 < count then some (text, count - 1) else none
  | _ => none

theorem step_escape (inside : s.mode = .insert) :
    ∃ event, s.step (.press "escape") = some (some event, { s with mode := .normal }) ∧
      event.inserted = s.dotRepeatEvent.bind VimEvent.leftOver := by
  have pressed : s.step (.press "escape") = some (some s.exitInsertMode.1, s.exitInsertMode.2) := by
    simp [step, keypress, inside]
  have plain : (VimEvent.once (.changeMode VimMode.normal.transition s.mode)).inserted = none := rfl
  rw [pressed]
  cases stored : s.dotRepeatEvent with
  | none => exact ⟨_, by simp only [exitInsertMode, stored, changeMode]; rfl, plain⟩
  | some event =>
    obtain ⟨type, count⟩ := event
    cases type with
    | insertText text position =>
      by_cases many : 1 < count
      · refine ⟨_, by simp only [exitInsertMode, stored, if_pos many]; rfl, ?_⟩
        simp [VimEvent.leftOver, VimEvent.inserted, many]
      · exact ⟨_, by simp only [exitInsertMode, stored, if_neg many, changeMode]; rfl, by simp [VimEvent.leftOver, many, plain]⟩
    | _ => exact ⟨_, by simp only [exitInsertMode, stored, changeMode]; rfl, plain⟩

theorem step_dot_iff (normal : s.mode = .normal) (clean : s.Clean) (event : VimEvent) :
    (∃ after, s.step (.typed '.') = some (some event, after)) ↔ s.dotRepeatEvent = some event := by
  rw [clean.eq_mk, normal]
  cases s.dotRepeatEvent with
  | none =>
    refine ⟨?_, nofun⟩
    rintro ⟨_, ⟨⟩⟩
  | some stored =>
    constructor
    · rintro ⟨_, ⟨⟩⟩
      rfl
    · rintro ⟨⟩
      exact ⟨_, rfl⟩

theorem leftOver_eq_none_iff (edit : Str → Str) :
    (s.dotRepeatEvent.map (editText edit)).bind VimEvent.leftOver = none ↔ ¬ s.InsertionStored := by
  unfold InsertionStored
  cases s.dotRepeatEvent with
  | none => simp
  | some event =>
    obtain ⟨type, count⟩ := event
    cases type with
    | insertText text position => simp [editText, VimEvent.leftOver]
    | operation operator operand register text => cases operator <;> simp [editText, VimEvent.leftOver]
    | _ => simp [editText, VimEvent.leftOver]

/-- A session is exact if and only if, where its entering command can be repeated, every enter and tab is erased again, and
where it cannot, no insertion with a count is stored from before. -/
theorem session_exact_iff (enters : s.Enters entry s') (keys : List InsertKey) :
    Exact entry s' keys ↔ (Repeatable entry → AllRecorded keys) ∧ (¬ Repeatable entry → ¬ s.InsertionStored) := by
  obtain ⟨inside, clean, stored, isEntry⟩ := enters.entered
  have ran := run_keys inside clean keys
  obtain ⟨event, left, inserts⟩ := step_escape ((s'.mapDotRepeatText_mode (recorded · keys)).trans inside)
  have stays := ((clean.mapDotRepeatText (recorded · keys)).withMode .normal)
  have exact_iff : Exact entry s' keys ↔
      (s'.mapDotRepeatText (recorded · keys)).dotRepeatEvent.bind VimEvent.leftOver =
        (entry.bind VimEvent.furtherCopies).map (produced keys, ·) ∧
      ∀ change, entry.bind (VimEvent.again (produced keys)) = some change →
        (s'.mapDotRepeatText (recorded · keys)).dotRepeatEvent = some change := by
    constructor
    · rintro ⟨typed, event', ended, ran', left', copies, dot⟩
      cases ran.symm.trans ran'
      cases left.symm.trans left'
      exact ⟨inserts.symm.trans copies, fun change isChange => (step_dot_iff rfl stays _).mp (dot change isChange)⟩
    · rintro ⟨copies, dot⟩
      exact ⟨_, event, _, ran, left, inserts.trans copies,
        fun change isChange => (step_dot_iff rfl stays _).mpr (dot change isChange)⟩
  rw [exact_iff, ← recorded_eq_produced_iff, mapDotRepeatText_eq]
  dsimp only
  rw [stored]
  cases entry with
  | none =>
    have noInsertion := leftOver_eq_none_iff (s := s) (recorded · keys)
    simpa [Repeatable] using noInsertion
  | some entry =>
    obtain ⟨type, count⟩ := entry
    cases isEntry _ rfl with
    | command position old =>
      by_cases many : 1 < count <;>
        simp [Repeatable, VimEventType.forDotRepeat, VimEvent.again, VimEvent.furtherCopies, editText, VimEvent.leftOver, many]
    | change operand register =>
      simp [Repeatable, VimEventType.forDotRepeat, VimEvent.again, VimEvent.furtherCopies, editText, VimEvent.leftOver]
    | visual motionType register =>
      have noInsertion := leftOver_eq_none_iff (s := s) (recorded · keys)
      simpa [Repeatable, VimEventType.forDotRepeat, VimEvent.again, VimEvent.furtherCopies] using noInsertion

/-- `3iab` and escape. -/
theorem session_exact_counted :
    ∃ (s s' : VimFSA) (entry : Option VimEvent), s.Enters entry s' ∧ (Exact entry s' [.char 'a', .char 'b'] ↔
      (Repeatable entry → AllRecorded [.char 'a', .char 'b']) ∧ (¬ Repeatable entry → ¬ s.InsertionStored)) := by
  have enters : Enters ⟨.normal, ['3'], none, some ['3'], none, none, none, '"', none⟩ _ _ :=
    .command 'i' _ _ (by decide) rfl rfl
  exact ⟨_, _, _, enters, session_exact_iff enters _⟩

/-- A line break typed after `2i` is not inserted again. -/
theorem line_break_lost :
    ¬ ∀ (given : List Key) (s s' : VimFSA) (entry : Option VimEvent) (keys : List InsertKey), new.run given = some s →
        s.Enters entry s' → Exact entry s' keys := by
  intro exact_
  have enters : Enters ⟨.normal, ['2'], none, some ['2'], none, none, none, '"', none⟩ _ _ :=
    .command 'i' _ _ (by decide) rfl rfl
  obtain ⟨typed, event, ended, ran, left, copies, -⟩ := exact_ [.press "escape", .typed '2'] _ _ _ [.enter] rfl enters
  cases ran
  cases left
  cases copies

end Session

end VimFSA

end Warp.Vim
