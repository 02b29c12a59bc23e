import Warp.Ansi.SyncOutput

namespace Warp.Ansi

open List

open Tmux (ParserState TmuxMessage)

variable {P δ : Type} {setting : Setting P δ}

def Call.isOfPane : Call δ → Bool
  | .handler _ => true
  | .finishReceivingHook => true
  | .onFinishByteProcessing _ _ => false
  | .tmuxControlModeEvent _ => false

theorem Call.isOfPane_of_isOfHook {call : Call δ} (ofHook : call.isOfHook) : call.isOfPane := by
  unfold isOfHook at ofHook
  split at ofHook <;> first | rfl | exact absurd ofHook Bool.false_ne_true

def paneBytes (pane : ℕ) (calls : List Tmux.Call) : Bytes :=
  calls.filterMap fun
    | .paneOutput other byte => if other = pane then some byte else none
    | .tmuxControlModeMessage _ => none

def announcement (line : Bytes) : Option (ℕ × ℕ) :=
  match Tmux.parseCommand line with
  | some (some (.setPrimaryWindowPane windowId paneId)) => some (windowId, paneId)
  | _ => none

def announcementsOf : Tmux.Call → List (ℕ × ℕ)
  | .tmuxControlModeMessage (.commandOutput (.ok lines)) => lines.filterMap announcement
  | _ => []

def announcements (calls : List Tmux.Call) : List (ℕ × ℕ) := calls.flatMap announcementsOf

def Leaves : Tmux.Call → Prop
  | .tmuxControlModeMessage .exit => True
  | .tmuxControlModeMessage (.parseError _ _) => True
  | _ => False

namespace TmuxPerformer

variable {self next : TmuxPerformer P δ} {pane : ℕ} {byte : UInt8} {bytes given : Bytes} {line : Bytes} {lines : List Bytes}
  {calls : List Tmux.Call}

variable (setting) in
/-- No pane is known yet, and what came is kept by pane. -/
structure Waiting (performer : TmuxPerformer P δ) (given : ℕ → Bytes) : Prop where
  ansiProcessor : performer.ansiProcessor = Core.new setting
  primaryPane : ∃ paneOutputMap, performer.primaryPane = .pending paneOutputMap ∧
    ∀ pane, (paneOutputMap.get? pane).getD [] = given pane
  outside : performer.outside.Kept Call.isOfPane .new

variable (setting) in
/-- The processor of the pane is where one that is given the bytes of the pane alone would be. -/
structure Reading (performer : TmuxPerformer P δ) (pane : ℕ) (given : Bytes) : Prop where
  primaryPane : performer.primaryPane = .ready pane
  twin : ∃ direct, Core.feed setting (Core.new setting, .new) given = some (performer.ansiProcessor, direct) ∧
    direct.Kept Call.isOfPane performer.outside

structure Extends (start next : TmuxPerformer P δ) : Prop where
  exited : next.exited = start.exited
  parseError : next.parseError = start.parseError
  calls : start.outside.calls <+: next.outside.calls

theorem Extends.refl (self : TmuxPerformer P δ) : self.Extends self := ⟨rfl, rfl, prefix_rfl⟩

theorem Extends.trans {later : TmuxPerformer P δ} (first : self.Extends next) (second : next.Extends later) : self.Extends later :=
  ⟨second.exited.trans first.exited, second.parseError.trans first.parseError, first.calls.trans second.calls⟩

theorem extends_call {call : Call δ} : self.Extends (self.call call) := ⟨rfl, rfl, prefix_append _ _⟩

theorem extends_foldlM {α : Type} {step : TmuxPerformer P δ → α → Option (TmuxPerformer P δ)} {inputs : List α}
    (steps : ∀ {self next a}, a ∈ inputs → step self a = some next → self.Extends next)
    (moves : inputs.foldlM step self = some next) : self.Extends next := by
  induction inputs generalizing self with
  | nil =>
    cases moves
    exact .refl _
  | cons input inputs ih =>
    rw [foldlM_cons] at moves
    obtain ⟨moved, first, later⟩ := Option.bind_eq_some_iff.mp moves
    exact (steps mem_cons_self first).trans (ih (fun member => steps (mem_cons_of_mem _ member)) later)

theorem extends_processPrimaryPaneOutput (moves : self.processPrimaryPaneOutput setting byte = some next) :
    self.Extends next := by
  unfold TmuxPerformer.processPrimaryPaneOutput at moves
  obtain ⟨moved, advances, rfl⟩ := Option.map_eq_some_iff.mp moves
  exact ⟨rfl, rfl, Core.advance_calls advances⟩

theorem extends_backgroundPaneOutput : self.Extends (self.backgroundPaneOutput pane bytes) := by
  induction bytes generalizing self with
  | nil => exact .refl _
  | cons byte bytes ih => exact extends_call.trans ih

theorem extends_replay {entry : ℕ × Bytes} (moves : self.replay setting pane entry = some next) : self.Extends next := by
  unfold TmuxPerformer.replay at moves
  split_ifs at moves
  · obtain ⟨processed, processes, isMoved⟩ := Option.bind_eq_some_iff.mp moves
    cases isMoved
    exact (extends_foldlM (fun _ => extends_processPrimaryPaneOutput) processes).trans extends_call
  · cases moves
    exact extends_backgroundPaneOutput

theorem extends_initPrimaryPane {window : ℕ} (moves : self.initPrimaryPane setting window pane = some next) :
    self.Extends next := by
  unfold TmuxPerformer.initPrimaryPane at moves
  split at moves
  · cases moves
    exact ⟨rfl, rfl, prefix_rfl⟩
  · have replays := extends_foldlM (fun _ => extends_replay) moves
    exact ⟨replays.exited, replays.parseError, (prefix_append _ _).trans replays.calls⟩

theorem extends_paneOutput (moves : self.paneOutput setting pane byte = some next) : self.Extends next := by
  unfold TmuxPerformer.paneOutput at moves
  split at moves
  · cases moves
    exact ⟨rfl, rfl, prefix_rfl⟩
  · split_ifs at moves
    · have processes := extends_processPrimaryPaneOutput moves
      exact ⟨processes.exited, processes.parseError, processes.calls⟩
    · cases moves
      exact extends_call

theorem extends_commandLine (moves : self.commandLine setting line = some next) : self.Extends next := by
  obtain ⟨response, -, moves⟩ := Option.bind_eq_some_iff.mp moves
  split at moves
  · exact extends_initPrimaryPane moves
  · cases moves
    exact .refl _
  · cases moves
    exact .refl _

theorem extends_perform {call : Tmux.Call} (stays : ¬ Leaves call) (moves : self.perform setting call = some next) :
    self.Extends next := by
  cases call with
  | paneOutput other byte => exact extends_paneOutput moves
  | tmuxControlModeMessage message =>
    cases message with
    | exit => exact (stays trivial).elim
    | parseError _ _ => exact (stays trivial).elim
    | windowClose _ =>
      cases moves
      exact .refl _
    | unknown _ _ =>
      cases moves
      exact .refl _
    | commandOutput outputLines =>
      cases outputLines with
      | ok lines => exact extends_foldlM (fun _ => extends_commandLine) moves
      | error _ =>
        cases moves
        exact .refl _

theorem calls_perform {call : Tmux.Call} (moves : self.perform setting call = some next) :
    self.outside.calls <+: next.outside.calls := by
  by_cases leaves : Leaves call
  · unfold Leaves at leaves
    split at leaves
    · cases moves
      exact prefix_rfl
    · cases moves
      exact prefix_rfl
    · exact leaves.elim
  · exact (extends_perform leaves moves).calls

section

variable (reading : self.Reading setting pane given)
include reading

theorem Reading.call {call : Call δ} (other : call.isOfPane = false) :
    (self.call call).Reading setting pane given := by
  obtain ⟨direct, feeds, kept⟩ := reading.twin
  exact ⟨reading.primaryPane, direct, feeds, kept.1, kept.2.trans (filter_append_other other).symm⟩

theorem Reading.processPrimaryPaneOutput (moves : self.processPrimaryPaneOutput setting byte = some next) :
    next.Reading setting pane (given ++ [byte]) := by
  obtain ⟨direct, feeds, kept⟩ := reading.twin
  unfold TmuxPerformer.processPrimaryPaneOutput at moves
  obtain ⟨moved, advances, rfl⟩ := Option.map_eq_some_iff.mp moves
  have both : Option.Rel (fun x y => x.1 = y.1 ∧ x.2.Kept Call.isOfPane y.2)
      (Core.feed setting (self.ansiProcessor, direct) [byte]) (Core.feed setting (self.ansiProcessor, self.outside) [byte]) :=
    Core.feed_kept (fun _ => Call.isOfPane_of_isOfHook) kept
  rw [Core.feed_singleton, Core.feed_singleton, advances] at both
  generalize isMoved : Core.advance setting (self.ansiProcessor, direct) byte = x at both
  cases both with
  | @some x _ both =>
    refine ⟨reading.primaryPane, x.2, ?_, both.2⟩
    rw [Core.feed_append, feeds, Option.bind_some, Core.feed_singleton, isMoved, ← both.1]

theorem Reading.processAll (moves : bytes.foldlM (TmuxPerformer.processPrimaryPaneOutput setting) self = some next) :
    next.Reading setting pane (given ++ bytes) := by
  induction bytes generalizing self given with
  | nil =>
    cases moves
    rw [append_nil]
    exact reading
  | cons byte bytes ih =>
    rw [foldlM_cons] at moves
    obtain ⟨moved, first, later⟩ := Option.bind_eq_some_iff.mp moves
    rw [append_cons]
    exact ih (reading.processPrimaryPaneOutput first) later

theorem Reading.backgroundPaneOutput {other : ℕ} :
    (self.backgroundPaneOutput other bytes).Reading setting pane given := by
  induction bytes generalizing self with
  | nil => exact reading
  | cons byte bytes ih => exact ih (reading.call rfl)

theorem Reading.replay {entries : List (ℕ × Bytes)}
    (moves : entries.foldlM (TmuxPerformer.replay setting pane) self = some next) :
    next.Reading setting pane (given ++ (entries.filter fun entry => entry.1 = pane).flatMap Prod.snd) := by
  induction entries generalizing self given with
  | nil =>
    cases moves
    rw [filter_nil, flatMap_nil, append_nil]
    exact reading
  | cons entry entries ih =>
    rw [foldlM_cons] at moves
    obtain ⟨moved, first, later⟩ := Option.bind_eq_some_iff.mp moves
    unfold TmuxPerformer.replay at first
    by_cases same : pane = entry.1
    · rw [if_pos same] at first
      obtain ⟨processed, processes, isMoved⟩ := Option.bind_eq_some_iff.mp first
      cases isMoved
      have kept : decide (entry.1 = pane) = true := decide_eq_true same.symm
      rw [filter_cons, if_pos kept, flatMap_cons, ← append_assoc]
      exact ih ((reading.processAll processes).call rfl) later
    · rw [if_neg same] at first
      cases first
      have dropped : ¬ decide (entry.1 = pane) = true := fun other => same (of_decide_eq_true other).symm
      rw [filter_cons, if_neg dropped]
      exact ih reading.backgroundPaneOutput later

end

section Steps

variable {window : ℕ}

theorem Waiting.initPrimaryPane {given : ℕ → Bytes} (waiting : self.Waiting setting given)
    (moves : self.initPrimaryPane setting window pane = some next) : next.Reading setting pane (given pane) := by
  obtain ⟨paneOutputMap, isMap, holds⟩ := waiting.primaryPane
  unfold TmuxPerformer.initPrimaryPane at moves
  rw [isMap] at moves
  have start : ({ self with primaryPane := .ready pane } : TmuxPerformer P δ).Reading setting pane [] :=
    ⟨rfl, .new, by rw [waiting.ansiProcessor]; rfl, waiting.outside.1.symm, waiting.outside.2.symm⟩
  have reading := (start.call rfl).replay moves
  have entries : (setting.order paneOutputMap.entries).filter (fun entry => decide (entry.1 = pane)) =
      paneOutputMap.entries.filter fun entry => decide (entry.1 = pane) := by
    have same := (setting.order_perm paneOutputMap.entries).filter fun entry => decide (entry.1 = pane)
    cases found : paneOutputMap.get? pane with
    | none =>
      rw [HashMap.filter_key_eq_nil found] at same ⊢
      exact List.perm_nil.mp same
    | some bytes =>
      rw [HashMap.filter_key_eq found] at same ⊢
      exact List.perm_singleton.mp same
  rw [entries, nil_append] at reading
  rw [← holds pane]
  cases found : paneOutputMap.get? pane with
  | none =>
    rw [HashMap.filter_key_eq_nil found] at reading
    exact reading
  | some bytes =>
    rw [HashMap.filter_key_eq found, flatMap_singleton] at reading
    exact reading

theorem Waiting.paneOutput {given : ℕ → Bytes} (waiting : self.Waiting setting given)
    (moves : self.paneOutput setting pane byte = some next) :
    next.Waiting setting fun other => given other ++ if pane = other then [byte] else [] := by
  obtain ⟨paneOutputMap, isMap, holds⟩ := waiting.primaryPane
  unfold TmuxPerformer.paneOutput at moves
  rw [isMap] at moves
  cases moves
  refine ⟨waiting.ansiProcessor, ⟨_, rfl, fun other => ?_⟩, waiting.outside⟩
  rw [HashMap.get?_insert]
  by_cases same : other = pane
  · rw [if_pos same, if_pos same.symm, Option.getD_some, holds, same]
  · rw [if_neg same, if_neg fun other => same other.symm, append_nil, holds]

theorem Reading.paneOutput {other : ℕ} (reading : self.Reading setting pane given)
    (moves : self.paneOutput setting other byte = some next) :
    next.Reading setting pane (given ++ if other = pane then [byte] else []) := by
  unfold TmuxPerformer.paneOutput at moves
  rw [reading.primaryPane] at moves
  dsimp only at moves
  by_cases same : other = pane
  · rw [if_pos same] at moves ⊢
    have kept : ({ self with
        primaryPane := .ready pane
        primaryPaneOutput := self.primaryPaneOutput ++ [byte] } : TmuxPerformer P δ).Reading setting pane given :=
      ⟨rfl, reading.twin⟩
    exact kept.processPrimaryPaneOutput moves
  · rw [if_neg same] at moves ⊢
    cases moves
    rw [append_nil]
    exact reading.call rfl

theorem commandLine_other (other : announcement line = none) (moves : self.commandLine setting line = some next) : next = self := by
  unfold announcement at other
  obtain ⟨response, isResponse, moves⟩ := Option.bind_eq_some_iff.mp moves
  rw [isResponse] at other
  split at moves
  · cases other
  · exact (Option.some.inj moves).symm
  · exact (Option.some.inj moves).symm

theorem commandLine_announcement (announces : announcement line = some (window, pane)) :
    self.commandLine setting line = self.initPrimaryPane setting window pane := by
  unfold announcement at announces
  split at announces
  · rename_i isResponse
    cases announces
    unfold TmuxPerformer.commandLine
    rw [isResponse]
    rfl
  · cases announces

theorem commandLines_other (others : lines.filterMap announcement = [])
    (moves : lines.foldlM (TmuxPerformer.commandLine setting) self = some next) : next = self := by
  induction lines generalizing self with
  | nil => exact (Option.some.inj moves).symm
  | cons line lines ih =>
    rw [foldlM_cons] at moves
    obtain ⟨moved, first, later⟩ := Option.bind_eq_some_iff.mp moves
    cases announces : announcement line with
    | none =>
      rw [filterMap_cons_none announces] at others
      rw [commandLine_other announces first] at later
      exact ih others later
    | some pair =>
      rw [filterMap_cons_some announces] at others
      cases others

theorem Waiting.commandLines {given : ℕ → Bytes} (waiting : self.Waiting setting given)
    (announces : lines.filterMap announcement = [(window, pane)])
    (moves : lines.foldlM (TmuxPerformer.commandLine setting) self = some next) :
    next.Reading setting pane (given pane) := by
  induction lines generalizing self with
  | nil => cases announces
  | cons line lines ih =>
    rw [foldlM_cons] at moves
    obtain ⟨moved, first, later⟩ := Option.bind_eq_some_iff.mp moves
    cases isAnnouncement : announcement line with
    | none =>
      rw [filterMap_cons_none isAnnouncement] at announces
      rw [commandLine_other isAnnouncement first] at later
      exact ih waiting announces later
    | some pair =>
      rw [filterMap_cons_some isAnnouncement] at announces
      obtain ⟨rfl, others⟩ := List.cons.inj announces
      rw [commandLine_announcement isAnnouncement] at first
      rw [commandLines_other others later]
      exact waiting.initPrimaryPane first

end Steps

section Stages

variable (setting) in
/-- Where a performer is after calls that have announced one pane at most. -/
def Stage (calls : List Tmux.Call) (self : TmuxPerformer P δ) : Prop :=
  (announcements calls = [] → self.Waiting setting fun pane => paneBytes pane calls) ∧
    ∀ window pane, announcements calls = [(window, pane)] → self.Reading setting pane (paneBytes pane calls)

variable {call : Tmux.Call}

theorem announcements_append :
    announcements (calls ++ [call]) = announcements calls ++ announcementsOf call := by
  unfold announcements
  rw [flatMap_append, flatMap_singleton]

theorem paneBytes_append : paneBytes pane (calls ++ [call]) = paneBytes pane calls ++ paneBytes pane [call] :=
  filterMap_append

theorem paneBytes_paneOutput {other : ℕ} : paneBytes pane [.paneOutput other byte] = if other = pane then [byte] else [] := by
  by_cases same : other = pane
  · rw [if_pos same]
    simp [paneBytes, same]
  · rw [if_neg same]
    simp [paneBytes, same]

theorem stage_new {outside : Outside δ} (silent : outside.Kept Call.isOfPane .new) {exited parseError : Bool} {output : Bytes} :
    (⟨Core.new setting, .pending .empty, exited, parseError, outside, output⟩ : TmuxPerformer P δ).Stage setting [] :=
  ⟨fun _ => ⟨rfl, ⟨_, rfl, fun _ => rfl⟩, silent⟩, fun _ _ => (nomatch ·)⟩

theorem Stage.unchanged (stage : self.Stage setting calls) (silent : announcementsOf call = [])
    (message : ∀ pane, paneBytes pane [call] = []) : self.Stage setting (calls ++ [call]) := by
  unfold Stage
  simp only [announcements_append, silent, append_nil, paneBytes_append, message]
  exact stage

theorem Stage.perform (stage : self.Stage setting calls) (stays : ¬ Leaves call)
    (moves : self.perform setting call = some next) : next.Stage setting (calls ++ [call]) := by
  cases call with
  | paneOutput other byte =>
    unfold Stage
    simp only [announcements_append, show announcementsOf (.paneOutput other byte) = [] from rfl, append_nil,
      paneBytes_append, paneBytes_paneOutput]
    exact ⟨fun silent => (stage.1 silent).paneOutput moves, fun window pane announced =>
      (stage.2 window pane announced).paneOutput moves⟩
  | tmuxControlModeMessage message =>
    cases message with
    | exit => exact (stays trivial).elim
    | parseError _ _ => exact (stays trivial).elim
    | windowClose _ =>
      cases moves
      exact stage.unchanged rfl fun _ => rfl
    | unknown _ _ =>
      cases moves
      exact stage.unchanged rfl fun _ => rfl
    | commandOutput outputLines =>
      cases outputLines with
      | error _ =>
        cases moves
        exact stage.unchanged rfl fun _ => rfl
      | ok lines =>
        have nothing (pane : ℕ) : paneBytes pane [.tmuxControlModeMessage (.commandOutput (.ok lines))] = [] := rfl
        have moves : lines.foldlM (TmuxPerformer.commandLine setting) self = some next := moves
        by_cases silent : lines.filterMap announcement = []
        · rw [commandLines_other silent moves]
          exact stage.unchanged silent nothing
        · unfold Stage
          simp only [announcements_append, paneBytes_append, nothing, append_nil]
          refine ⟨fun none' => absurd (List.append_eq_nil_iff.mp none').2 silent, fun window pane announced => ?_⟩
          rcases List.append_eq_singleton_iff.mp announced with ⟨before, here⟩ | ⟨_, here⟩
          · exact (stage.1 before).commandLines here moves
          · exact absurd here silent

theorem Stage.performAll {more : List Tmux.Call} (stage : self.Stage setting calls) (stays : ∀ call ∈ more, ¬ Leaves call)
    (moves : more.foldlM (TmuxPerformer.perform setting) self = some next) : next.Stage setting (calls ++ more) := by
  induction more generalizing self calls with
  | nil =>
    cases moves
    rw [append_nil]
    exact stage
  | cons call more ih =>
    rw [foldlM_cons] at moves
    obtain ⟨moved, first, later⟩ := Option.bind_eq_some_iff.mp moves
    rw [append_cons]
    exact ih (stage.perform (stays call mem_cons_self) first) (fun other member => stays other (mem_cons_of_mem _ member))
      later

end Stages

theorem parse_stays {parser parser' : ParserState} (inside : self.exited = false) (stays : ∀ call ∈ calls, ¬ Leaves call)
    (reads : ParserState.parse setting.debugAssertions parser bytes = some (parser', calls)) :
    self.parse setting parser bytes =
      (calls.foldlM (TmuxPerformer.perform setting) self).map fun next => ((next, parser'), []) := by
  induction bytes generalizing self parser calls with
  | nil =>
    cases reads
    rfl
  | cons byte bytes ih =>
    unfold ParserState.parse Transducer.feed at reads
    obtain ⟨⟨moved, first⟩, advances, rest⟩ := Option.bind_eq_some_iff.mp reads
    obtain ⟨⟨ended, later⟩, readsRest, same⟩ := Option.map_eq_some_iff.mp rest
    cases same
    unfold TmuxPerformer.parse
    rw [advances, foldlM_append]
    show (first.foldlM (TmuxPerformer.perform setting) self).bind _ =
      Option.map _ ((first.foldlM (TmuxPerformer.perform setting) self).bind _)
    cases performs : first.foldlM (TmuxPerformer.perform setting) self with
    | none => rfl
    | some next =>
      have stays' : ∀ call ∈ first, ¬ Leaves call := fun call member => stays call (mem_append_left _ member)
      have exited : next.exited = false :=
        (extends_foldlM (fun member => extends_perform (stays' _ member)) performs).exited.trans inside
      show (if next.exited then _ else _) = _
      rw [exited, if_neg Bool.false_ne_true]
      exact ih exited (fun call member => stays call (mem_append_right _ member)) readsRest

theorem calls_foldlM (moves : calls.foldlM (TmuxPerformer.perform setting) self = some next) :
    self.outside.calls <+: next.outside.calls := by
  induction calls generalizing self with
  | nil =>
    cases moves
    exact prefix_rfl
  | cons call calls ih =>
    rw [foldlM_cons] at moves
    obtain ⟨moved, first, later⟩ := Option.bind_eq_some_iff.mp moves
    exact (calls_perform first).trans (ih later)

theorem calls_parse {parser : ParserState} {ended : (TmuxPerformer P δ × ParserState) × Bytes}
    (parses : self.parse setting parser bytes = some ended) : self.outside.calls <+: ended.1.1.outside.calls := by
  induction bytes generalizing self parser with
  | nil =>
    cases parses
    exact prefix_rfl
  | cons byte bytes ih =>
    unfold TmuxPerformer.parse at parses
    obtain ⟨⟨parser', calls⟩, -, parses⟩ := Option.bind_eq_some_iff.mp parses
    obtain ⟨moved, performs, parses⟩ := Option.bind_eq_some_iff.mp parses
    have first := calls_foldlM performs
    split_ifs at parses
    · cases parses
      exact first
    · exact first.trans (ih parses)

end TmuxPerformer

namespace Processor

variable {reached next : Processor P × Outside δ} {bytes : Bytes} {byte : UInt8} {isFrame : Bool} {parse : Parse P δ} {fuel : ℕ}

section Calls

def Adds (parse : Parse P δ) : Prop :=
  ∀ reached next isFrame bytes, parse reached isFrame bytes = some next → reached.2.calls <+: next.2.calls

theorem calls_finishSyncOutputWith (adds : Adds parse) (finishes : finishSyncOutputWith parse reached = some next) :
    reached.2.calls <+: next.2.calls := by
  unfold finishSyncOutputWith at finishes
  split_ifs at finishes
  · obtain ⟨flushed, parses, isNext⟩ := Option.bind_eq_some_iff.mp finishes
    cases isNext
    exact (adds _ _ _ _ parses).trans (prefix_append _ _)
  · cases finishes
    exact prefix_rfl

theorem calls_parseByteWith (adds : Adds parse) (parses : parseByteWith setting parse reached byte = some next) :
    reached.2.calls <+: next.2.calls := by
  unfold parseByteWith at parses
  split_ifs at parses
  · dsimp only at parses
    split_ifs at parses
    · cases parses
      exact prefix_rfl
    · have grows := calls_finishSyncOutputWith adds parses
      exact grows
    · have grows := calls_finishSyncOutputWith adds parses
      exact grows
    · cases parses
      exact prefix_rfl
  · obtain ⟨moved, advances, rfl⟩ := Option.map_eq_some_iff.mp parses
    exact Core.advance_calls advances

variable {rest : Bytes}

theorem calls_parseUntil (adds : Adds parse)
    (parses : parseUntil (parseByteWith setting parse) reached bytes = some (next, rest)) :
    reached.2.calls <+: next.2.calls := by
  induction bytes generalizing reached with
  | nil =>
    cases parses
    exact prefix_rfl
  | cons byte bytes ih =>
    unfold parseUntil at parses
    obtain ⟨moved, first, parses⟩ := Option.bind_eq_some_iff.mp parses
    have first := calls_parseByteWith adds first
    split_ifs at parses
    · cases parses
      exact first
    · exact first.trans (ih parses)

theorem calls_parsePlain (adds : Adds parse)
    (parses : parsePlain setting parse reached isFrame bytes = some (next, rest)) :
    reached.2.calls <+: next.2.calls := by
  unfold parsePlain at parses
  obtain ⟨⟨⟨self, outside⟩, rest⟩, first, ended⟩ := Option.bind_eq_some_iff.mp parses
  have before : reached.2.calls <+: outside.calls := calls_parseUntil adds first
  cases ended
  dsimp only
  split_ifs
  · exact before.trans ((prefix_append _ _).trans (prefix_append _ _))
  · exact before.trans (prefix_append _ _)

theorem calls_parseControl (parses : parseControl setting reached isFrame bytes = some (next, rest)) :
    reached.2.calls <+: next.2.calls := by
  unfold parseControl at parses
  obtain ⟨⟨⟨performer, parser⟩, rest⟩, first, ended⟩ := Option.bind_eq_some_iff.mp parses
  have before : reached.2.calls <+: performer.outside.calls := TmuxPerformer.calls_parse first
  dsimp only at ended
  split_ifs at ended
  · cases ended
    exact before.trans ((prefix_append _ _).trans (prefix_append _ _))
  · cases ended
    exact before.trans ((prefix_append _ _).trans (prefix_append _ _))
  · cases ended
    exact before.trans (prefix_append _ _)

theorem calls_parseBytesInternal : Adds (parseBytesInternal setting fuel) := by
  induction fuel with
  | zero => exact fun _ _ _ _ parses => (nomatch parses)
  | succ fuel ih =>
    intro reached next isFrame bytes parses
    unfold parseBytesInternal at parses
    split_ifs at parses
    · cases parses
      exact prefix_rfl
    · obtain ⟨⟨moved, rest⟩, first, later⟩ := Option.bind_eq_some_iff.mp parses
      exact (calls_parseControl first).trans (ih _ _ _ _ later)
    · obtain ⟨⟨moved, rest⟩, first, later⟩ := Option.bind_eq_some_iff.mp parses
      exact (calls_parsePlain ih first).trans (ih _ _ _ _ later)

end Calls

section Control

variable {batches : List Bytes} {parser parser' : ParserState} {calls more : List Tmux.Call}

def performer (reached : Processor P × Outside δ) : TmuxPerformer P δ :=
  ⟨reached.1.control.ansiProcessor, reached.1.control.primaryPane, false, false, reached.2, []⟩

variable (setting) in
def parseBatches (reached : Processor P × Outside δ) (batches : List Bytes) : Option (Processor P × Outside δ) :=
  batches.foldlM (parseBytes setting) reached

theorem stage_onFinish {self : TmuxPerformer P δ} (stage : self.Stage setting calls) {output : Bytes} :
    (⟨self.ansiProcessor, self.primaryPane, false, false, self.outside.call (.onFinishByteProcessing output isFrame), []⟩ :
      TmuxPerformer P δ).Stage setting calls := by
  refine ⟨fun silent => ?_, fun window pane announced => ?_⟩
  · have waiting := stage.1 silent
    exact ⟨waiting.ansiProcessor, waiting.primaryPane, waiting.outside.1,
      (filter_append_other rfl).trans waiting.outside.2⟩
  · have reading := (stage.2 window pane announced).call (rfl : (.onFinishByteProcessing output isFrame : Call δ).isOfPane = false)
    exact ⟨reading.primaryPane, reading.twin⟩

theorem parseBytes_control (control : reached.1.core.tmuxControlMode) (stays : ∀ call ∈ calls, ¬ Leaves call)
    (reads : ParserState.parse setting.debugAssertions reached.1.control.controlModeParser bytes = some (parser', calls)) :
    parseBytes setting reached bytes = if bytes = [] then some reached else
      (calls.foldlM (TmuxPerformer.perform setting) (performer reached)).map fun next =>
        ({ reached.1 with control := ⟨parser', next.ansiProcessor, next.primaryPane⟩ },
          next.outside.call (.onFinishByteProcessing next.primaryPaneOutput false)) := by
  have turns (fuel : ℕ) : parseBytesInternal setting (fuel + 2) reached false bytes = if bytes = [] then some reached else
      (parseControl setting reached false bytes).bind fun ended =>
        parseBytesInternal setting (fuel + 1) ended.1 false ended.2 := by
    rw [parseBytesInternal, if_pos control]
    rfl
  unfold parseBytes
  rw [show reached.1.depth bytes = 4 * (reached.1.buffer.length + bytes.length) + 2 + 2 from rfl, turns]
  split_ifs
  · rfl
  have parses : (performer reached).parse setting reached.1.control.controlModeParser bytes = _ :=
    TmuxPerformer.parse_stays rfl stays reads
  show Option.bind (Option.bind ((performer reached).parse setting reached.1.control.controlModeParser bytes) _) _ = _
  rw [parses]
  cases performs : calls.foldlM (TmuxPerformer.perform setting) (performer reached) with
  | none => rfl
  | some next =>
    have exited : next.exited = false :=
      (TmuxPerformer.extends_foldlM (fun member => TmuxPerformer.extends_perform (stays _ member)) performs).exited
    rw [Option.map_some, Option.bind_some]
    dsimp only
    rw [exited, if_neg Bool.false_ne_true, Option.bind_some, parseBytesInternal_nil]
    rfl

theorem parseBatches_stage (control : reached.1.core.tmuxControlMode) (stage : (performer reached).Stage setting calls)
    (stays : ∀ call ∈ more, ¬ Leaves call)
    (reads : ParserState.parse setting.debugAssertions reached.1.control.controlModeParser batches.flatten =
      some (parser', more)) (runs : parseBatches setting reached batches = some next) :
    (performer next).Stage setting (calls ++ more) := by
  induction batches generalizing reached calls more with
  | nil =>
    cases reads
    cases runs
    rw [append_nil]
    exact stage
  | cons batch batches ih =>
    unfold parseBatches at runs
    rw [foldlM_cons] at runs
    obtain ⟨moved, first, later⟩ := Option.bind_eq_some_iff.mp runs
    unfold ParserState.parse at reads
    rw [flatten_cons, Transducer.feed_append] at reads
    obtain ⟨⟨between, early⟩, readsFirst, rest⟩ := Option.bind_eq_some_iff.mp reads
    obtain ⟨⟨ended, late⟩, readsRest, same⟩ := Option.map_eq_some_iff.mp rest
    cases same
    have staysEarly : ∀ call ∈ early, ¬ Leaves call := fun call member => stays call (mem_append_left _ member)
    have staysLate : ∀ call ∈ late, ¬ Leaves call := fun call member => stays call (mem_append_right _ member)
    rw [parseBytes_control control staysEarly readsFirst] at first
    rw [← append_assoc]
    split_ifs at first with empty
    · subst empty
      cases readsFirst
      cases first
      rw [append_nil]
      exact ih control stage staysLate readsRest later
    · obtain ⟨performed, performs, isMoved⟩ := Option.map_eq_some_iff.mp first
      have control' : moved.1.core.tmuxControlMode := by
        rw [← isMoved]
        exact control
      have stage' : (performer moved).Stage setting (calls ++ early) := by
        rw [← isMoved]
        exact stage_onFinish (stage.performAll staysEarly performs)
      have reads' : ParserState.parse setting.debugAssertions moved.1.control.controlModeParser batches.flatten =
          some (ended, late) := by
        rw [← isMoved]
        exact readsRest
      exact ih control' stage' staysLate reads' later

end Control

section Behaviour

variable {core : Core P} {outside : Outside δ}

def Balanced (calls : List (Call δ)) : Prop :=
  ∀ before after, calls = before ++ .handler (.setMode .syncOutput) :: after → .handler (.unsetMode .syncOutput) ∈ after

theorem parseUntil_starts (idle : core.syncOutput = false) (plain : core.tmuxControlMode = false)
    (quiet : ∀ event ∈ setting.vte.events core.parser bytes, event.setsSyncOutput = false)
    (starts : ∃ event ∈ setting.vte.events core.parser bytes, event.startsControlMode setting.env)
    {ended : (Processor P × Outside δ) × Bytes}
    (parses : parseUntil (parseByteWith setting parse) (ofCore setting core, outside) bytes = some ended) :
    ended.1.1.core.tmuxControlMode := by
  induction bytes generalizing core outside with
  | nil =>
    obtain ⟨_, member, _⟩ := starts
    exact absurd member not_mem_nil
  | cons byte bytes ih =>
    unfold parseUntil at parses
    obtain ⟨next, first, later⟩ := Option.bind_eq_some_iff.mp parses
    unfold ofCore at first
    rw [parseByteWith_idle (by rw [idle]; exact Bool.false_ne_true)] at first
    obtain ⟨moved, advances, rfl⟩ := Option.map_eq_some_iff.mp first
    obtain ⟨runs, reads⟩ := Core.feed_some (Core.feed_singleton.trans advances)
    have firstQuiet : ∀ event ∈ setting.vte.events core.parser [byte], event.setsSyncOutput = false := fun event member =>
      quiet event (mem_append_left _ (Vte.events_singleton ▸ member))
    by_cases here : ∃ event ∈ setting.vte.events core.parser [byte], event.startsControlMode setting.env
    · obtain ⟨event, member, starts⟩ := here
      have begun : moved.1.tmuxControlMode := run_starts member starts runs
      rw [if_pos (.inl begun)] at later
      cases later
      exact begun
    · have uneventful : Uneventful setting.env (setting.vte.events core.parser [byte]) := fun event member =>
        ⟨firstQuiet event member, by rw [← Bool.not_eq_true]; exact fun starts => here ⟨event, member, starts⟩⟩
      obtain ⟨sync, control, -⟩ := uneventful.run runs
      have sync : moved.1.syncOutput = false := sync.trans idle
      have control : moved.1.tmuxControlMode = false := control.trans plain
      have goes : ¬ (moved.1.tmuxControlMode ∨ core.syncOutput ≠ moved.1.syncOutput) := by
        rw [control, sync, idle]
        decide
      have later : parseUntil (parseByteWith setting parse) (ofCore setting moved.1, moved.2) bytes = some ended :=
        (if_neg goes).symm.trans later
      refine ih sync control ?_ ?_ later
      · rw [reads]
        exact fun event member => quiet event (mem_append_right _ member)
      · obtain ⟨event, member, starts⟩ := starts
        rw [reads]
        refine ⟨event, (List.mem_append.mp member).resolve_left fun early => ?_, starts⟩
        exact here ⟨event, Vte.events_singleton ▸ early, starts⟩

theorem parseBytes_starts (idle : core.syncOutput = false) (plain : core.tmuxControlMode = false)
    (quiet : ∀ event ∈ setting.vte.events core.parser bytes, event.setsSyncOutput = false)
    (starts : ∃ event ∈ setting.vte.events core.parser bytes, event.startsControlMode setting.env)
    (parses : parseBytesInternal setting fuel (ofCore setting core, outside) isFrame bytes = some next) :
    .tmuxControlModeEvent .starting ∈ next.2.calls := by
  cases fuel with
  | zero => cases parses
  | succ fuel =>
    have some' : bytes ≠ [] := by
      rintro rfl
      obtain ⟨_, member, _⟩ := starts
      exact absurd member not_mem_nil
    unfold parseBytesInternal at parses
    rw [if_neg some', if_neg (by rw [show (ofCore setting core).core.tmuxControlMode = false from plain]; exact Bool.false_ne_true)]
      at parses
    obtain ⟨⟨moved, rest⟩, first, later⟩ := Option.bind_eq_some_iff.mp parses
    refine (calls_parseBytesInternal _ _ _ _ later).subset ?_
    unfold parsePlain at first
    obtain ⟨⟨⟨self, outside'⟩, rest'⟩, until', ended⟩ := Option.bind_eq_some_iff.mp first
    have begun : self.core.tmuxControlMode := parseUntil_starts idle plain quiet starts until'
    cases ended
    dsimp only
    rw [if_pos begun]
    exact mem_append_right _ mem_cons_self

variable {calls : List (Call δ)}

theorem filter_ofPerformer (made : OfPerformer calls) {keep : Call δ → Bool} (handler : ∀ made, keep (.handler made))
    (hook : keep .finishReceivingHook) : calls.filter keep = calls := by
  refine List.filter_eq_self.mpr fun call member => ?_
  rcases made call member with ⟨made, rfl, -⟩ | rfl
  · exact handler made
  · exact hook

theorem not_balanced (set : IsSet calls) : ¬ Balanced calls := by
  intro balanced
  obtain ⟨earlier, isFilter⟩ := List.getLast?_eq_some_iff.mp set
  obtain ⟨front, back, rfl, -, isBack⟩ := List.filter_eq_append_iff.mp isFilter
  obtain ⟨skipped, after, rfl, -, -, nothing⟩ := List.filter_eq_cons_iff.mp isBack
  have ends := balanced (front ++ skipped) after (append_assoc _ _ _).symm
  have kept : (.handler (.unsetMode .syncOutput) : Call δ) ∈ after.filter Call.isSyncOutput := List.mem_filter.mpr ⟨ends, rfl⟩
  rw [nothing] at kept
  exact absurd kept not_mem_nil

theorem balanced_of_unset (nothing : calls.filter Call.isSyncOutput = []) : Balanced calls := by
  rintro before after rfl
  have kept : (.handler (.setMode .syncOutput) : Call δ) ∈
      (before ++ .handler (.setMode .syncOutput) :: after).filter Call.isSyncOutput :=
    List.mem_filter.mpr ⟨mem_append_right _ mem_cons_self, rfl⟩
  rw [nothing] at kept
  exact absurd kept not_mem_nil

def csiStarted : Processor (Option Bytes) :=
  ⟨{ Core.new csiSetting with tmuxControlMode := true }, [], TmuxControlMode.new csiSetting⟩

def announcing : Bytes := ascii "%begin 1 1 0\nprimary window pane: @1 %2\n%end 1 1 0\n"

def announced : Tmux.Call := .tmuxControlModeMessage (.commandOutput (.ok [ascii "primary window pane: @1 %2"]))

end Behaviour

end Processor

end Warp.Ansi
