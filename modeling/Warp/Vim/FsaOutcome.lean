import Warp.Vim.Fsa

namespace Warp.Vim.VimFSA

variable {s : VimFSA} {c : Char}

def operandChars : List Char :=
  ['h', 'l', ' ', backspaceChar, 'j', 'k', 'w', 'W', 'b', 'B', 'e', 'E', '^', '$', '+', '-', '_', 'G', '\x7b', '\x7d', '%']

def lineChar : VimOperator → Option Char
  | .delete => some 'd'
  | .change | .toggleComment => some 'c'
  | .yank => some 'y'
  | _ => none

def completesOperand (c : Char) : PendingOperand → Prop
  | .g => ['e', 'E', 'g'].contains c
  | .findChar _ _ => True
  | .textObject _ => textObjectChars.contains c
  | .squareBracket _ => brackets.contains c

def Completes (s : VimFSA) (c : Char) : Prop :=
  match s.pendingAction with
  | some (.operation operator none) =>
    lineChar operator = some c ∨ operandChars.contains c ∨ (c = '0' ∧ s.pendingOperandCount = none) ∨
      ((c = ';' ∨ c = ',') ∧ s.lastFindMotion.isSome)
  | some (.operation _ (some operand)) => completesOperand c operand
  | _ => False

def OperationPending (s : VimFSA) : Prop :=
  s.mode = .normal ∧ ∃ operator operand, s.pendingAction = some (.operation operator operand)

def Counted (s : VimFSA) : Prop := s.pendingOperandCount = none ∨ s.OperationPending

inductive Outcome (s : VimFSA) (c : Char) : Handled VimEventType → Prop
  | emits (event : VimEventType) (s' : VimFSA) (action : s'.pendingActionCount = s.pendingActionCount)
      (operand : s'.pendingOperandCount = s.pendingOperandCount) (completes : s.OperationPending → s.Completes c) :
      Outcome s c (some (some event, s'))
  | waits (s' : VimFSA) (mode : s'.mode = s.mode) (counted : s'.Counted) : Outcome s c (some (none, s'))

structure Idle (s : VimFSA) : Prop where
  uncounted : s.pendingOperandCount = none
  notPending : ¬ s.OperationPending

namespace Outcome

theorem cancel (s : VimFSA) (c : Char) : Outcome s c s.cancel := .waits s.clear rfl (.inl rfl)

theorem ite {p : Prop} [Decidable p] {handled other : Handled VimEventType} (yes : p → Outcome s c handled)
    (no : Outcome s c other) : Outcome s c (if p then handled else other) := by
  split_ifs with holds
  · exact yes holds
  · exact no

theorem convert {β : Type} {convert : Char → Option β} {list : List Char} {use : β → Handled VimEventType}
    (inside : list.contains c = true) (accepts : (list.all fun d => (convert d).isSome) = true)
    (each : ∀ value, Outcome s c (use value)) : Outcome s c ((convert c).bind use) := by
  obtain ⟨value, accepted⟩ := Option.isSome_iff_exists.mp (List.all_eq_true.mp accepts c (by simpa using inside))
  rw [accepted]
  exact each value

theorem event (idle : s.Idle) (event : VimEventType) {s' : VimFSA} (action : s'.pendingActionCount = s.pendingActionCount)
    (operand : s'.pendingOperandCount = s.pendingOperandCount) : Outcome s c (s'.emit event) :=
  .emits event s' action operand fun pending => absurd pending idle.notPending

theorem wait (idle : s.Idle) {s' : VimFSA} (mode : s'.mode = s.mode) (uncounted : s'.pendingOperandCount = s.pendingOperandCount) :
    Outcome s c s'.wait :=
  .waits s' mode (.inl (uncounted.trans idle.uncounted))

end Outcome

theorem repeatFind_outcome {change : FindCharMotion → FindCharMotion} {use : VimFSA → FindCharMotion → Handled VimEventType}
    (each : s.lastFindMotion.isSome → ∀ motion, Outcome s c (use s motion)) : Outcome s c (s.repeatFind change use) := by
  unfold repeatFind
  cases found : s.lastFindMotion with
  | none => exact Outcome.cancel s c
  | some motion => exact each (by rw [found]; rfl) _

theorem unmatchedBracket_accepts (direction : Direction) :
    (brackets.all fun d => (unmatchedBracket direction d).isSome) = true := by cases direction <;> decide

theorem jumpToUnmatched_outcome (idle : s.Idle) (direction : Direction) : Outcome s c (s.jumpToUnmatched direction c) := by
  unfold jumpToUnmatched
  refine .ite (fun bracket => .convert bracket (unmatchedBracket_accepts direction) fun _ => .event idle _ rfl rfl) ?_
  exact .cancel s c

theorem handleMotion_outcome (idle : s.Idle) {other : Handled VimEventType} (others : Outcome s c other) :
    Outcome s c (s.handleMotion c other) := by
  unfold handleMotion
  refine .ite (fun inside => .convert inside (by decide) fun _ => .event idle _ rfl rfl) ?_
  refine .ite (fun inside => .convert inside (by decide) fun _ => .event idle _ rfl rfl) ?_
  refine .ite (fun inside => .convert inside (by decide) fun _ => .event idle _ rfl rfl) ?_
  refine .ite (fun inside => .convert inside (by decide) fun _ => .event idle _ rfl rfl) ?_
  refine .ite (fun _ => ?_) ?_
  · cases s.pendingActionCount with
    | none => exact .event idle _ rfl rfl
    | some _ => exact .wait idle rfl rfl
  refine .ite (fun _ => .wait idle rfl rfl) ?_
  refine .ite (fun _ => ?_) ?_
  · cases s.getActionCount <;> exact .event idle _ rfl rfl
  refine .ite (fun _ => .event idle _ rfl rfl) ?_
  refine .ite (fun _ => .event idle _ rfl rfl) ?_
  refine .ite (fun _ => .event idle _ rfl rfl) ?_
  refine .ite (fun _ => repeatFind_outcome fun _ _ => .event idle _ rfl rfl) ?_
  exact .ite (fun _ => repeatFind_outcome fun _ _ => .event idle _ rfl rfl) others

section Normal

theorem handleNormalNothingPending_outcome (idle : s.Idle) : Outcome s c (s.handleNormalNothingPending c) := by
  refine handleMotion_outcome idle ?_
  repeat refine .ite (fun _ => .event idle _ rfl rfl) ?_
  refine .ite (fun pending => .convert pending (by decide) fun _ => .wait idle rfl rfl) ?_
  repeat refine .ite (fun _ => .event idle _ rfl rfl) ?_
  refine .ite (fun _ => ?_) ?_
  · cases s.dotRepeatEvent with
    | none => exact .wait idle rfl rfl
    | some event => exact .event idle _ rfl rfl
  repeat refine .ite (fun _ => .event idle _ rfl rfl) ?_
  exact .cancel s c

theorem operate_outcome (operator : VimOperator) (operand : VimOperand) {s' : VimFSA}
    (action : s'.pendingActionCount = s.pendingActionCount) (second : s'.pendingOperandCount = s.pendingOperandCount)
    (completes : s.Completes c) : Outcome s c (s'.operate operator operand) :=
  .emits _ s' action second fun _ => completes

variable {operator : VimOperator}

theorem handleNormalPendingOperand_outcome {operand : PendingOperand}
    (pending : s.pendingAction = some (.operation operator (some operand))) :
    Outcome s c (s.handleNormalPendingOperand c operator operand) := by
  have completes : s.Completes c ↔ completesOperand c operand := by
    unfold Completes
    rw [pending]
  cases operand with
  | g =>
    refine .ite (fun inside => operate_outcome _ _ rfl rfl (completes.mpr ?_)) (.ite (fun isG =>
      operate_outcome _ _ rfl rfl (completes.mpr ?_)) (.cancel s c))
    · simp only [completesOperand, List.contains_eq_mem, decide_eq_true_eq, List.mem_cons, List.not_mem_nil,
        or_false] at inside ⊢
      tauto
    · rw [isG]
      rfl
  | findChar direction destination => exact operate_outcome _ _ rfl rfl (completes.mpr trivial)
  | textObject inclusion =>
    exact .ite (fun inside => .convert inside (by decide) fun _ => operate_outcome _ _ rfl rfl
      (completes.mpr inside)) (.cancel s c)
  | squareBracket direction =>
    exact .ite (fun inside => .convert inside (unmatchedBracket_accepts direction) fun _ => operate_outcome _ _ rfl rfl
      (completes.mpr inside)) (.cancel s c)

theorem handleNormalPendingOperation_outcome (normal : s.mode = .normal)
    (pending : s.pendingAction = some (.operation operator none)) :
    Outcome s c (s.handleNormalPendingOperation c operator) := by
  have completes : s.Completes c ↔ lineChar operator = some c ∨ operandChars.contains c ∨
      (c = '0' ∧ s.pendingOperandCount = none) ∨ ((c = ';' ∨ c = ',') ∧ s.lastFindMotion.isSome) := by
    unfold Completes
    rw [pending]
  have motion : ∀ list : List Char, (list.all fun d => operandChars.contains d) = true → list.contains c = true →
      s.Completes c := fun list all inside =>
    completes.mpr (.inr (.inl (List.all_eq_true.mp all c (by simpa using inside))))
  have single : ∀ d : Char, operandChars.contains d = true → c = d → s.Completes c := fun d isMotion same =>
    completes.mpr (.inr (.inl (same ▸ isMotion)))
  have still : s.OperationPending := ⟨normal, operator, none, pending⟩
  unfold handleNormalPendingOperation
  refine .ite (fun h => operate_outcome _ _ rfl rfl (completes.mpr (.inl (by rw [h.1, h.2]; rfl)))) ?_
  refine .ite (fun h => operate_outcome _ _ rfl rfl (completes.mpr (.inl (by rw [h.1, h.2]; rfl)))) ?_
  refine .ite (fun h => operate_outcome _ _ rfl rfl (completes.mpr (.inl (by rw [h.1, h.2]; rfl)))) ?_
  refine .ite (fun h => operate_outcome _ _ rfl rfl (completes.mpr (.inl (by rw [h.1, h.2]; rfl)))) ?_
  refine .ite (fun inside => .convert inside (by decide) fun operand =>
    .waits _ rfl (.inr ⟨normal, operator, some operand, rfl⟩)) ?_
  refine .ite (fun inside => .convert inside (by decide) fun _ => operate_outcome _ _ rfl rfl
    (motion _ (by decide) inside)) ?_
  refine .ite (fun inside => .convert inside (by decide) fun _ => operate_outcome _ _ rfl rfl
    (motion _ (by decide) inside)) ?_
  refine .ite (fun inside => ?_) ?_
  · split_ifs
    · exact .convert inside (by decide) fun _ => operate_outcome _ _ rfl rfl (motion _ (by decide) inside)
    · exact .convert inside (by decide) fun _ => operate_outcome _ _ rfl rfl (motion _ (by decide) inside)
  refine .ite (fun inside => .convert inside (by decide) fun _ => operate_outcome _ _ rfl rfl
    (motion _ (by decide) inside)) ?_
  refine .ite (fun inside => .convert inside (by decide) fun _ => operate_outcome _ _ rfl rfl
    (motion _ (by decide) inside)) ?_
  refine .ite (fun same => operate_outcome _ _ rfl rfl (single 'G' (by decide) same)) ?_
  refine .ite (fun same => operate_outcome _ _ rfl rfl (single '\x7b' (by decide) same)) ?_
  refine .ite (fun same => operate_outcome _ _ rfl rfl (single '\x7d' (by decide) same)) ?_
  refine .ite (fun same => ?_) ?_
  · cases counted : s.pendingOperandCount with
    | none => exact operate_outcome _ _ rfl rfl (completes.mpr (.inr (.inr (.inl ⟨same, counted⟩))))
    | some _ => exact .waits _ rfl (.inr still)
  refine .ite (fun _ => .waits _ rfl (.inr still)) ?_
  refine .ite (fun same => operate_outcome _ _ rfl rfl (single '%' (by decide) same)) ?_
  refine .ite (fun same => repeatFind_outcome fun found _ => operate_outcome _ _ rfl rfl
    (completes.mpr (.inr (.inr (.inr ⟨.inl same, found⟩))))) ?_
  refine .ite (fun same => repeatFind_outcome fun found _ => operate_outcome _ _ rfl rfl
    (completes.mpr (.inr (.inr (.inr ⟨.inr same, found⟩))))) ?_
  exact .cancel s c

theorem enterInsert_outcome {handled : Handled VimEventType} (outcome : Outcome s c handled) :
    Outcome s c (enterInsert operator handled) := by
  cases outcome with
  | waits s' mode counted => exact .waits s' mode counted
  | emits event s' action operand completes =>
    unfold enterInsert
    split_ifs
    · exact .emits event _ action operand completes
    · exact .emits event _ action operand completes

theorem handleNormalPendingAction_outcome {action : PendingAction} (normal : s.mode = .normal)
    (pending : s.pendingAction = some action) (counted : s.Counted) :
    Outcome s c (s.handleNormalPendingAction c action) := by
  have idle : (∀ operator operand, action ≠ .operation operator operand) → s.Idle := by
    intro other
    have notPending : ¬ s.OperationPending := by
      rintro ⟨-, operator, operand, isOperation⟩
      exact other operator operand (Option.some.inj (pending.symm.trans isOperation))
    exact ⟨counted.resolve_right notPending, notPending⟩
  cases action with
  | operation operator operand =>
    cases operand with
    | none => exact enterInsert_outcome (handleNormalPendingOperation_outcome normal pending)
    | some operand => exact enterInsert_outcome (handleNormalPendingOperand_outcome pending)
  | g =>
    have idle := idle fun _ _ => PendingAction.noConfusion
    have waiting : ∀ operator, Outcome s c (s.setPending (.operation operator none)).wait := fun operator =>
      .waits _ rfl (.inr ⟨normal, operator, none, rfl⟩)
    unfold handleNormalPendingAction
    repeat refine .ite (fun _ => .event idle _ rfl rfl) ?_
    refine .ite (fun inside => .convert inside (by decide) waiting) ?_
    exact .ite (fun _ => waiting _) (.cancel s c)
  | z =>
    have idle := idle fun _ _ => PendingAction.noConfusion
    exact .ite (fun _ => .event idle _ rfl rfl) (.cancel s c)
  | findChar direction destination =>
    have idle := idle fun _ _ => PendingAction.noConfusion
    exact .event idle _ rfl rfl
  | squareBracket direction =>
    have idle := idle fun _ _ => PendingAction.noConfusion
    exact jumpToUnmatched_outcome idle direction
  | setRegister =>
    have idle := idle fun _ _ => PendingAction.noConfusion
    exact .wait idle rfl rfl

end Normal

section Visual

variable {motionType : MotionType}

theorem visual_idle (visual : s.mode = .visual motionType) (counted : s.Counted) : s.Idle := by
  have notPending : ¬ s.OperationPending := by
    rintro ⟨normal, -⟩
    rw [visual] at normal
    cases normal
  exact ⟨counted.resolve_right notPending, notPending⟩

theorem createVisualOperator_outcome (idle : s.Idle) {list : List Char} (inside : list.contains c = true)
    (accepts : (list.all fun d => (VimOperator.ofChar d).isSome) = true) {s' : VimFSA}
    (action : s'.pendingActionCount = s.pendingActionCount) (operand : s'.pendingOperandCount = s.pendingOperandCount) :
    Outcome s c ((s.createVisualOperator c motionType).bind fun event => s'.emit event) := by
  unfold createVisualOperator
  rw [Option.bind_map]
  exact .convert inside accepts fun _ => .event idle _ action operand

theorem handleVisualNothingPending_outcome (idle : s.Idle) :
    Outcome s c (s.handleVisualNothingPending c motionType) := by
  refine handleMotion_outcome idle ?_
  refine .ite (fun inside => createVisualOperator_outcome idle inside (by decide) rfl rfl) ?_
  refine .ite (fun inside => createVisualOperator_outcome idle inside (by decide) rfl rfl) ?_
  refine .ite (fun _ => .event idle _ rfl rfl) ?_
  refine .ite (fun pending => .convert pending (by decide) fun _ => .wait idle rfl rfl) ?_
  refine .ite (fun _ => .wait idle rfl rfl) ?_
  refine .ite (fun _ => .wait idle rfl rfl) ?_
  refine .ite (fun _ => .event idle _ rfl rfl) ?_
  refine .ite (fun _ => .event idle _ rfl rfl) ?_
  exact .wait idle rfl rfl

theorem handleVisualPendingAction_outcome (idle : s.Idle) (action : PendingAction) :
    Outcome s c (s.handleVisualPendingAction c action) := by
  cases action with
  | operation operator operand => exact .cancel s c
  | g =>
    unfold handleVisualPendingAction
    repeat refine .ite (fun _ => .event idle _ rfl rfl) ?_
    exact .cancel s c
  | z => exact .ite (fun _ => .event idle _ rfl rfl) (.cancel s c)
  | findChar direction destination => exact .event idle _ rfl rfl
  | squareBracket direction => exact jumpToUnmatched_outcome idle direction
  | setRegister => exact .wait idle rfl rfl

theorem handleVisualCommand_outcome (idle : s.Idle) : Outcome s c (s.handleVisualCommand c motionType) := by
  unfold handleVisualCommand
  cases s.pendingAction with
  | some action => exact handleVisualPendingAction_outcome idle action
  | none =>
    cases s.pendingVisualObject with
    | none => exact handleVisualNothingPending_outcome idle
    | some inclusion =>
      exact .ite (fun inside => .convert inside (by decide) fun _ => .event idle _ rfl rfl) (.cancel s c)

end Visual

end Warp.Vim.VimFSA
