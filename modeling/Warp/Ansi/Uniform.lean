import Warp.Ansi.Performer

namespace Warp.Ansi

open Checked Str List

variable {δ σ : Type} {env : Env δ} {handler : Handler δ σ}

def HandlerCall.isSyncOutput : HandlerCall δ → Bool
  | .setMode mode => mode = .syncOutput
  | .unsetMode mode => mode = .syncOutput
  | _ => false

def Event.setsSyncOutput : Event → Bool
  | .csiDispatch params intermediates hasIgnored action => !hasIgnored && intermediates.length ≤ 2 && action = 'h' &&
    params.any fun param => Mode.fromPrimitive intermediates.head? param.first = some .syncOutput
  | _ => false

def Event.startsControlMode (env : Env δ) : Event → Bool
  | .hook params _ _ c => env.sshTmuxWrapper && c = 'p' && (params.map fun param => param.values.length).sum = 1 &&
    params.head?.map Param.values = some [1000]
  | _ => false

def Performer.activate (handler : Handler δ σ) (self : Performer σ) : Performer σ :=
  { self.emit handler (.setMode .syncOutput) with syncOutput := true }

/-- A relation between two runs of the performer that read the same and make the same calls. -/
structure Uniform (handler : Handler δ σ) (R : Performer σ → Performer σ → Prop) : Prop where
  precedingChar : ∀ {p q}, R p q → p.precedingChar = q.precedingChar
  dcsData : ∀ {p q}, R p q → p.dcsData = q.dcsData
  apcData : ∀ {p q}, R p q → p.apcData = q.apcData
  images : ∀ {p q}, R p q → p.images = q.images
  emit : ∀ {p q call}, call.isSyncOutput = false → R p q → R (p.emit handler call) (q.emit handler call)
  answer : ∀ {p q}, R p q → (handler.finishReceivingHook p.handler).1 = (handler.finishReceivingHook q.handler).1
  finish : ∀ {p q}, R p q → R { p with handler := (handler.finishReceivingHook p.handler).2 }
    { q with handler := (handler.finishReceivingHook q.handler).2 }
  precede : ∀ {p q} c, R p q → R { p with precedingChar := c } { q with precedingChar := c }
  collect : ∀ {p q} data, R p q → R { p with dcsData := data } { q with dcsData := data }
  gather : ∀ {p q} data, R p q → R { p with apcData := data } { q with apcData := data }
  identify : ∀ {p q} n, R p q → R { p with images := n } { q with images := n }
  write : ∀ {p q} (report : Bool → Bytes), R p q →
    R { p with written := p.written ++ report p.syncOutput } { q with written := q.written ++ report q.syncOutput }

theorem rel_bind {α β γ : Type} {R : β → γ → Prop} {x : Option α} {f : α → Option β} {g : α → Option γ}
    (related : ∀ a, Option.Rel R (f a) (g a)) : Option.Rel R (x.bind f) (x.bind g) := by
  cases x with
  | none => exact .none
  | some a => exact related a

namespace Uniform

variable {R : Performer σ → Performer σ → Prop} {p q : Performer σ} (uniform : Uniform handler R) (related : R p q)
include uniform related

theorem emits {calls : List (HandlerCall δ)} (others : ∀ call ∈ calls, call.isSyncOutput = false) :
    R (p.emits handler calls) (q.emits handler calls) := by
  induction calls generalizing p q with
  | nil => exact related
  | cons call calls ih =>
    exact ih (uniform.emit (others call mem_cons_self) related) fun other member => others other (mem_cons_of_mem _ member)

theorem handleDecodedHook (hook : Option (DProtoHook δ)) :
    R (p.handleDecodedHook handler hook) (q.handleDecodedHook handler hook) := by
  cases hook with
  | none => exact related
  | some hook =>
    cases hook with
    | sourcedRcFileForWarp value => exact related
    | sshTmuxInstaller value =>
      unfold Performer.handleDecodedHook
      dsimp only
      cases TmuxInstallationState.fromStr value with
      | none => exact related
      | some installation => exact uniform.emit rfl related
    | _ => exact uniform.emit rfl related

theorem handleUnencodedHook (hook : Option (DProtoHook δ)) :
    R (p.handleUnencodedHook handler hook) (q.handleUnencodedHook handler hook) := by
  unfold Performer.handleUnencodedHook
  split <;> first | exact related | exact uniform.emit rfl related

theorem handleDecodedData (decoded : Option Bytes) :
    R (p.handleDecodedData env handler decoded) (q.handleDecodedData env handler decoded) := by
  cases decoded with
  | none => exact related
  | some decoded => exact uniform.handleDecodedHook related _

theorem handleKvMarker (params : List Bytes) : Option.Rel R (p.handleKvMarker handler params) (q.handleKvMarker handler params) := by
  unfold Performer.handleKvMarker
  cases params[2]? with
  | none => exact .some related
  | some marker =>
    dsimp only
    split_ifs
    · cases params[3]? with
      | none => exact .some related
      | some hook => exact .some (uniform.emit rfl related)
    · rw [uniform.answer related]
      cases (handler.finishReceivingHook q.handler).1 with
      | none => exact .some (uniform.finish related)
      | some hook => exact .some (uniform.handleDecodedHook (uniform.finish related) _)
    · cases params[3]? with
      | none => exact .some related
      | some key => exact rel_bind fun values => .some (uniform.emit rfl related)
    · exact .some related

section Callbacks

theorem print (c : Char) : R (p.print handler c) (q.print handler c) := uniform.precede _ (uniform.emit rfl related)

theorem execute (byte : UInt8) : R (p.execute handler byte) (q.execute handler byte) := by
  refine uniform.emits related fun call member => ?_
  unfold executeCall at member
  split at member <;> first | exact absurd member not_mem_nil | rw [List.mem_singleton.mp member]; rfl

theorem unhook : R (p.unhook env handler) (q.unhook env handler) := by
  unfold Performer.unhook
  rw [uniform.dcsData related]
  dsimp only
  split_ifs
  · exact uniform.handleDecodedData related _
  · exact uniform.handleUnencodedHook related _
  · exact related

omit uniform related in
theorem isSyncOutput_configureCharset {charset : StandardCharset} {intermediates : Bytes} {call : HandlerCall δ}
    (member : call ∈ configureCharset charset intermediates) : call.isSyncOutput = false := by
  obtain ⟨index, -, rfl⟩ := Option.map_eq_some_iff.mp (Option.mem_toList.mp member)
  rfl

theorem escDispatch (intermediates : Bytes) (byte : UInt8) :
    R (p.escDispatch handler intermediates byte) (q.escDispatch handler intermediates byte) := by
  refine uniform.emits related fun call member => ?_
  unfold escCalls at member
  split at member <;> first
    | exact isSyncOutput_configureCharset member
    | exact absurd member not_mem_nil
    | rw [List.mem_singleton.mp member]; rfl
    | rcases List.mem_pair.mp member with rfl | rfl <;> rfl

theorem apcEnd : Option.Rel R (p.apcEnd env handler) (q.apcEnd env handler) := by
  unfold Performer.apcEnd
  rw [uniform.apcData related]
  cases q.apcData.head? with
  | none => exact .some related
  | some first =>
    dsimp only
    split_ifs
    · refine rel_bind fun data => rel_bind fun chunk => .some ?_
      split_ifs
      · exact uniform.emit rfl related
      · exact uniform.emit rfl (uniform.emit rfl related)
    · exact .some related
    · exact .some related

end Callbacks

theorem setIndexedColor (chunks : List (List Bytes)) :
    Option.Rel R (p.setIndexedColor handler chunks) (q.setIndexedColor handler chunks) := by
  induction chunks with
  | nil => exact .some related
  | cons chunk chunks ih =>
    unfold Performer.setIndexedColor
    refine rel_bind fun name => rel_bind fun spec => rel_bind fun color => ?_
    cases parseNumber name with
    | none => exact ih
    | some i =>
      cases color with
      | none => exact ih
      | some c => exact .some (uniform.emit rfl related)

theorem setDynamicColors (terminator : Str) (code : ℕ) (params : List Bytes) :
    Option.Rel R (p.setDynamicColors handler terminator code params) (q.setDynamicColors handler terminator code params) := by
  induction params generalizing p q code with
  | nil => exact .some related
  | cons param params ih =>
    unfold Performer.setDynamicColors
    refine rel_bind fun offset => ?_
    by_cases beyond : ColorIndex.cursor < ColorIndex.foreground + offset
    · rw [if_pos beyond, if_pos beyond]
      exact .some related
    · rw [if_neg beyond, if_neg beyond]
      refine rel_bind fun color => rel_bind fun next => ih ?_ _
      cases color with
      | none =>
        dsimp only
        split_ifs
        · exact uniform.emit rfl related
        · exact related
      | some color => exact uniform.emit rfl related

theorem oscTitle (params : List Bytes) : Option.Rel R (p.oscTitle handler params) (q.oscTitle handler params) := by
  unfold Performer.oscTitle
  split_ifs
  · exact rel_bind fun parts => .some (uniform.emit rfl related)
  · exact .some related

theorem oscColorIndex (params : List Bytes) :
    Option.Rel R (p.oscColorIndex handler params) (q.oscColorIndex handler params) := by
  unfold Performer.oscColorIndex
  split_ifs
  · exact rel_bind fun pairs => uniform.setIndexedColor related _
  · exact .some related

theorem oscNotification (params : List Bytes) :
    Option.Rel R (p.oscNotification handler params) (q.oscNotification handler params) := by
  unfold Performer.oscNotification
  by_cases long : 2 ≤ params.length
  · rw [if_pos long, if_pos long]
    refine rel_bind fun first => ?_
    by_cases number : first ≠ [] ∧ first.all isAsciiDigit
    · rw [if_pos number, if_pos number]
      exact .some related
    · rw [if_neg number, if_neg number]
      refine rel_bind fun parts => ?_
      cases parts.mapM fromUtf8 with
      | none => exact .some related
      | some parts =>
        refine .some ?_
        split_ifs
        · exact uniform.emit rfl related
        · exact related
  · rw [if_neg long, if_neg long]
    exact .some related

theorem oscDynamicColor (terminator : Str) (params : List Bytes) :
    Option.Rel R (p.oscDynamicColor handler terminator params) (q.oscDynamicColor handler terminator params) := by
  unfold Performer.oscDynamicColor
  split_ifs
  · refine rel_bind fun code => ?_
    cases parseNumber code with
    | none => exact .some related
    | some code => exact rel_bind fun params => uniform.setDynamicColors related _ _ _
  · exact .some related

theorem oscCursorStyle (params : List Bytes) :
    Option.Rel R (p.oscCursorStyle handler params) (q.oscCursorStyle handler params) := by
  unfold Performer.oscCursorStyle
  by_cases long : 2 ≤ params.length
  · rw [if_pos long, if_pos long]
    refine rel_bind fun param => ?_
    by_cases shaped : 13 ≤ param.length
    · rw [if_pos shaped, if_pos shaped]
      refine rel_bind fun key => ?_
      by_cases named : key = ascii "CursorShape="
      · rw [if_pos named, if_pos named]
        refine rel_bind fun byte => .some (uniform.emits related fun call member => ?_)
        obtain ⟨shape, -, rfl⟩ := Option.map_eq_some_iff.mp (Option.mem_toList.mp member)
        rfl
      · rw [if_neg named, if_neg named]
        exact .some related
    · rw [if_neg shaped, if_neg shaped]
      exact .some related
  · rw [if_neg long, if_neg long]
    exact .some related

theorem oscClipboard (terminator : Str) (params : List Bytes) :
    Option.Rel R (p.oscClipboard handler terminator params) (q.oscClipboard handler terminator params) := by
  unfold Performer.oscClipboard
  by_cases short : params.length < 3
  · rw [if_pos short, if_pos short]
    exact .some related
  · rw [if_neg short, if_neg short]
    refine rel_bind fun selection => rel_bind fun data => .some ?_
    split_ifs
    · exact uniform.emit rfl related
    · exact uniform.emit rfl related

section

variable (params : List Bytes)
include params

theorem oscResetColorIndex :
    Option.Rel R (p.oscResetColorIndex handler params) (q.oscResetColorIndex handler params) := by
  have resets (colors : List ℕ) : R (p.emits handler (colors.map .resetColor)) (q.emits handler (colors.map .resetColor)) := by
    refine uniform.emits related fun call member => ?_
    obtain ⟨color, -, rfl⟩ := List.mem_map.mp member
    rfl
  unfold Performer.oscResetColorIndex
  split_ifs
  · exact .some (resets _)
  · exact rel_bind fun names => .some (resets _)

theorem oscPromptMarker :
    Option.Rel R (p.oscPromptMarker handler params) (q.oscPromptMarker handler params) := by
  refine rel_bind fun options => rel_bind fun marker => .some (uniform.emits related fun call member => ?_)
  obtain ⟨marker, -, rfl⟩ := Option.map_eq_some_iff.mp (Option.mem_toList.mp member)
  rfl

theorem oscTitledNotification :
    Option.Rel R (p.oscTitledNotification handler params) (q.oscTitledNotification handler params) := by
  unfold Performer.oscTitledNotification
  by_cases long : 4 ≤ params.length
  · rw [if_pos long, if_pos long]
    refine rel_bind fun kind => ?_
    by_cases notifies : kind = ascii "notify"
    · rw [if_pos notifies, if_pos notifies]
      refine .some ?_
      split_ifs
      · exact uniform.emit rfl related
      · exact related
    · rw [if_neg notifies, if_neg notifies]
      exact .some related
  · rw [if_neg long, if_neg long]
    exact .some related

theorem oscInlineImage :
    Option.Rel R (p.oscInlineImage env handler params) (q.oscInlineImage env handler params) := by
  unfold Performer.oscInlineImage
  rw [uniform.images related]
  refine rel_bind fun argument => ?_
  have identified := uniform.identify (q.images + 1) related
  split_ifs
  · refine rel_bind fun metadata => ?_
    cases params.getLast? with
    | none => exact .some identified
    | some last =>
      refine rel_bind fun parts => ?_
      cases parts with
      | none => exact .some identified
      | some parts => exact .some (uniform.emits identified (by simp [HandlerCall.isSyncOutput]))
  · exact rel_bind fun metadata => .some (uniform.emit rfl identified)
  · refine rel_bind fun parts => ?_
    cases parts with
    | none => exact .some related
    | some parts => exact .some (uniform.emit rfl related)
  · exact .some (uniform.emit rfl related)
  · exact .some related

theorem oscInBandGenerator :
    R (p.oscInBandGenerator handler params) (q.oscInBandGenerator handler params) := by
  unfold Performer.oscInBandGenerator
  split_ifs
  · exact uniform.emit rfl related
  · exact uniform.emit rfl related
  · exact related

theorem oscWarp : Option.Rel R (p.oscWarp env handler params) (q.oscWarp env handler params) := by
  unfold Performer.oscWarp
  generalize (params[1]?.map fromUtf8Lossy).bind List.head? = kind
  split
  · cases params[2]? with
    | none => exact .some related
    | some data => exact .some (uniform.handleDecodedData related _)
  · cases params[2]? with
    | none => exact .some related
    | some data => exact .some (uniform.handleUnencodedHook related _)
  · exact uniform.handleKvMarker related _
  · exact .some related

end

theorem updateCompletion (marker : Bytes) (payload : Option Bytes) :
    Option.Rel R (p.updateCompletion handler marker payload) (q.updateCompletion handler marker payload) := by
  unfold Performer.updateCompletion
  cases fromUtf8 marker with
  | none => exact .some related
  | some parameter =>
    cases payload with
    | none => exact .some related
    | some data =>
      refine rel_bind fun field => .some ?_
      split_ifs
      · exact uniform.emit rfl related
      · exact related

theorem oscCompletions (params : List Bytes) :
    Option.Rel R (p.oscCompletions handler params) (q.oscCompletions handler params) := by
  unfold Performer.oscCompletions
  cases params[1]? with
  | none => exact .some related
  | some marker =>
    dsimp only
    split_ifs
    · cases (params[2]?.map fromUtf8Lossy).bind CompletionsShellData.fromFormatType with
      | none => exact .some related
      | some format => exact .some (uniform.emit rfl related)
    · exact .some (uniform.emit rfl related)
    · cases params[2]? with
      | none => exact .some related
      | some data => exact .some (uniform.emit rfl related)
    · exact uniform.updateCompletion related _ _
    · exact .some (uniform.emit rfl related)
    · exact .some related

theorem oscDispatch (params : List Bytes) (bellTerminated : Bool) :
    Option.Rel R (p.oscDispatch env handler params bellTerminated) (q.oscDispatch env handler params bellTerminated) := by
  unfold Performer.oscDispatch
  by_cases none' : params = []
  · rw [if_pos none', if_pos none']
    exact .some related
  · rw [if_neg none', if_neg none']
    refine rel_bind fun code => ?_
    by_cases empty : code = []
    · rw [if_pos empty, if_pos empty]
      exact .some related
    · rw [if_neg empty, if_neg empty]
      cases OscCode.ofBytes code with
      | title => exact uniform.oscTitle related _
      | colorIndex => exact uniform.oscColorIndex related _
      | notification => exact uniform.oscNotification related _
      | dynamicColor => exact uniform.oscDynamicColor related _ _
      | cursorStyle => exact uniform.oscCursorStyle related _
      | clipboard => exact uniform.oscClipboard related _ _
      | resetColorIndex => exact uniform.oscResetColorIndex related _
      | promptMarker => exact uniform.oscPromptMarker related _
      | titledNotification => exact uniform.oscTitledNotification related _
      | inlineImage => exact uniform.oscInlineImage related _
      | inBandGenerator => exact .some (uniform.oscInBandGenerator related _)
      | warp => exact uniform.oscWarp related _
      | completions => exact uniform.oscCompletions related _
      | unexpected => exact .some related
      | unknown => exact .some related
      | _ => exact .some (uniform.emit rfl related)

section Csi

omit uniform related in
theorem setMode_eq {self : Performer σ} {mode : Mode} (other : mode ≠ .syncOutput) :
    ({ self.emit handler (.setMode mode) with syncOutput := self.syncOutput || mode = .syncOutput } : Performer σ) =
      self.emit handler (.setMode mode) := by
  rw [decide_eq_false other, Bool.or_false]
  rfl

omit uniform related in
theorem setMode_syncOutput {self : Performer σ} :
    ({ self.emit handler (.setMode .syncOutput) with
      syncOutput := self.syncOutput || decide (Mode.syncOutput = .syncOutput) } : Performer σ) = self.activate handler := by
  rw [decide_eq_true rfl, Bool.or_true]
  rfl

theorem setModes {intermediate : Option UInt8} {params : List Param}
    (activates : (params.any fun param => Mode.fromPrimitive intermediate param.first = some .syncOutput) →
      ∀ {p q}, R p q → R (p.activate handler) (q.activate handler)) :
    R (p.setModes handler intermediate params) (q.setModes handler intermediate params) := by
  induction params generalizing p q with
  | nil => exact related
  | cons param params ih =>
    have later {p' q' : Performer σ} (moved : R p' q') :
        R (p'.setModes handler intermediate params) (q'.setModes handler intermediate params) :=
      ih moved fun sets => activates (by rw [any_cons, sets, Bool.or_true])
    unfold Performer.setModes
    rw [foldl_cons, foldl_cons]
    cases isMode : Mode.fromPrimitive intermediate param.first with
    | none => exact later related
    | some mode =>
      by_cases sync : mode = .syncOutput
      · subst sync
        have activated := activates (by rw [any_cons, isMode, decide_eq_true rfl, Bool.true_or]) related
        rw [← @setMode_syncOutput _ _ handler p, ← @setMode_syncOutput _ _ handler q] at activated
        exact later activated
      · have other : (.setMode mode : HandlerCall δ).isSyncOutput = false := decide_eq_false sync
        have emitted := uniform.emit other related
        rw [← @setMode_eq _ _ handler p mode sync, ← @setMode_eq _ _ handler q mode sync] at emitted
        exact later emitted

theorem unsetModes (intermediate : Option UInt8) (params : List Param) :
    R (p.unsetModes handler intermediate params) (q.unsetModes handler intermediate params) := by
  induction params generalizing p q with
  | nil => exact related
  | cons param params ih =>
    unfold Performer.unsetModes
    rw [foldl_cons, foldl_cons]
    cases Mode.fromPrimitive intermediate param.first with
    | none => exact ih related
    | some mode =>
      by_cases sync : mode = .syncOutput
      · simp only [if_pos sync]
        exact ih related
      · simp only [if_neg sync]
        have other : (.unsetMode mode : HandlerCall δ).isSyncOutput = false := decide_eq_false sync
        exact ih (uniform.emit other related)

theorem requestMode (mode : Option Mode) : R (p.requestMode mode) (q.requestMode mode) := by
  unfold Performer.requestMode
  by_cases sync : mode = some .syncOutput
  · rw [if_pos sync, if_pos sync, append_assoc, append_assoc, append_assoc, append_assoc]
    exact uniform.write (fun active => ascii "\x1b[?2026;" ++ (ascii (if active then "1" else "2") ++ ascii "$y")) related
  · rw [if_neg sync, if_neg sync]
    exact related

theorem terminalAttributes (params : List Param) :
    Option.Rel R (p.terminalAttributes handler params) (q.terminalAttributes handler params) := by
  unfold Performer.terminalAttributes
  split_ifs
  · exact .some (uniform.emit rfl related)
  · cases attrsFromSgrParameters params with
    | none => exact .none
    | some attrs =>
      refine .some (uniform.emits related fun call member => ?_)
      obtain ⟨attr, -, rfl⟩ := List.mem_map.mp member
      rfl

omit uniform related in
theorem isSyncOutput_windowReport {report : UInt16} {call : HandlerCall δ} (member : call ∈ windowReport report) :
    call.isSyncOutput = false := by
  unfold windowReport at member
  split at member <;> first | exact absurd member not_mem_nil | rw [List.mem_singleton.mp member]; rfl

theorem emitsOption {α : Type} {x : Option α} {call : α → HandlerCall δ} (others : ∀ a, (call a).isSyncOutput = false) :
    R (p.emits handler (x.map call).toList) (q.emits handler (x.map call).toList) := by
  refine uniform.emits related fun made member => ?_
  obtain ⟨a, -, rfl⟩ := Option.map_eq_some_iff.mp (Option.mem_toList.mp member)
  exact others a

omit uniform related in
theorem ofAction_setModes {windows : Bool} {action : Char} {intermediate taken : Option UInt8}
    (isSet : Csi.ofAction windows action intermediate = .setModes taken) : action = 'h' ∧ taken = intermediate := by
  unfold Csi.ofAction Csi.ofAny at isSet
  split_ifs at isSet with isC isH isL isP
  · exact absurd isSet (by simp)
  · exact ⟨isH, (Csi.setModes.inj isSet).symm⟩
  · exact absurd isSet (by simp)
  · exact absurd isSet (by simp)
  · cases intermediate with
    | none =>
      cases found : Csi.plain.lookup action with
      | none => exact absurd isSet (by simp [found])
      | some csi =>
        have isSet : csi = .setModes taken := by simpa [found] using isSet
        obtain ⟨before, after, split, -⟩ := List.lookup_eq_some_iff.mp found
        have member : (action, csi) ∈ Csi.plain := by rw [split]; simp
        have none' : ∀ entry ∈ Csi.plain, entry.2 ≠ .setModes taken := by simp [Csi.plain]
        exact absurd isSet (none' _ member)
    | some intermediate =>
      unfold Csi.marked at isSet
      cases windows <;> (dsimp only [Option.getD_none] at isSet; split at isSet <;> exact absurd isSet (by simp))

theorem csiDispatch (params : List Param) (intermediates : Bytes) (hasIgnored : Bool) (action : Char)
    (activates : (Event.csiDispatch params intermediates hasIgnored action).setsSyncOutput →
      ∀ {p q}, R p q → R (p.activate handler) (q.activate handler)) :
    Option.Rel R (p.csiDispatch env handler params intermediates hasIgnored action)
      (q.csiDispatch env handler params intermediates hasIgnored action) := by
  unfold Performer.csiDispatch
  by_cases ignored : hasIgnored ∨ 2 < intermediates.length
  · rw [if_pos ignored, if_pos ignored]
    exact .some related
  · rw [if_neg ignored, if_neg ignored]
    dsimp only
    cases isCsi : Csi.ofAction env.windows action intermediates.head? with
    | setModes intermediate =>
      obtain ⟨rfl, rfl⟩ := ofAction_setModes isCsi
      refine .some (uniform.setModes related fun sets => activates ?_)
      rw [not_or, Bool.not_eq_true, Nat.not_lt] at ignored
      simp only [Event.setsSyncOutput, ignored.1, ignored.2, sets]
      rfl
    | unsetModes intermediate => exact .some (uniform.unsetModes related _ _)
    | repeatPreceding =>
      dsimp only
      rw [uniform.precedingChar related]
      cases q.precedingChar with
      | none => exact .some related
      | some c =>
        refine .some (uniform.emits related fun call member => ?_)
        rw [eq_of_mem_replicate member]
        rfl
    | identifyTerminal intermediate =>
      dsimp only
      split_ifs
      · exact .some (uniform.emit rfl related)
      · exact .some related
    | gotoLine => exact rel_bind fun line => .some (uniform.emit rfl related)
    | gotoCol => exact rel_bind fun col => .some (uniform.emit rfl related)
    | goto => exact rel_bind fun line => rel_bind fun col => .some (uniform.emit rfl related)
    | clearTabs => exact .some (uniform.emitsOption related fun _ => rfl)
    | clearScreen => exact .some (uniform.emitsOption related fun _ => rfl)
    | clearLine => exact .some (uniform.emitsOption related fun _ => rfl)
    | setCursorStyle => exact .some (uniform.emitsOption related fun _ => rfl)
    | attributes => exact uniform.terminalAttributes related _
    | requestMode intermediate => exact .some (uniform.requestMode related _)
    | windowReport => exact .some (uniform.emits related fun call member => isSyncOutput_windowReport member)
    | setKeyboardFlags =>
      dsimp only
      cases KeyboardModesApplyBehavior.fromKittyApplyMode (paramOr params 1 1) with
      | none => exact .some related
      | some apply => exact .some (uniform.emit rfl related)
    | unhandled => exact .some related
    | _ => exact .some (uniform.emit rfl related)

end Csi

/-- Two runs that read the same and make the same calls do so at any event. Setting synchronized output and starting
control mode are left to the relation. -/
theorem perform (event : Event)
    (activates : event.setsSyncOutput → ∀ {p q}, R p q → R (p.activate handler) (q.activate handler))
    (starts : event.startsControlMode env →
      ∀ {p q}, R p q → R { p with tmuxControlMode := true } { q with tmuxControlMode := true }) :
    Option.Rel R (p.perform env handler event) (q.perform env handler event) := by
  cases event with
  | print c => exact .some (uniform.print related c)
  | execute byte => exact .some (uniform.execute related byte)
  | hook params intermediates ignore c =>
    refine .some ?_
    have collected := uniform.collect ⟨[], intermediates, c⟩ related
    unfold Performer.hook
    cases enters : Event.startsControlMode env (.hook params intermediates ignore c) with
    | false =>
      unfold Event.startsControlMode at enters
      simp only [enters, Bool.or_false]
      exact collected
    | true =>
      have started := starts enters collected
      unfold Event.startsControlMode at enters
      simp only [enters, Bool.or_true]
      exact started
  | put byte =>
    refine .some ?_
    unfold Performer.put
    rw [uniform.dcsData related]
    exact uniform.collect _ related
  | unhook => exact .some (uniform.unhook related)
  | oscDispatch params bellTerminated => exact uniform.oscDispatch related _ _
  | csiDispatch params intermediates hasIgnored action => exact uniform.csiDispatch related _ _ _ _ activates
  | escDispatch intermediates ignore byte => exact .some (uniform.escDispatch related _ _)
  | apcStart => exact .some (uniform.gather _ related)
  | apcPut byte =>
    refine .some ?_
    unfold Performer.apcPut
    rw [uniform.apcData related]
    exact uniform.gather _ related
  | apcEnd => exact uniform.apcEnd related

theorem run (events : List Event)
    (activates : (∃ event ∈ events, event.setsSyncOutput) → ∀ {p q}, R p q → R (p.activate handler) (q.activate handler))
    (starts : (∃ event ∈ events, event.startsControlMode env) →
      ∀ {p q}, R p q → R { p with tmuxControlMode := true } { q with tmuxControlMode := true }) :
    Option.Rel R (p.run env handler events) (q.run env handler events) := by
  induction events generalizing p q with
  | nil => exact .some related
  | cons event events ih =>
    have first := uniform.perform related event (fun sets => activates ⟨event, mem_cons_self, sets⟩)
      (fun begins => starts ⟨event, mem_cons_self, begins⟩)
    unfold Performer.run
    rw [foldlM_cons, foldlM_cons]
    generalize p.perform env handler event = moved at first ⊢
    generalize q.perform env handler event = moved' at first ⊢
    cases first with
    | none => exact .none
    | some moved =>
      refine ih moved (fun ⟨other, member, sets⟩ => activates ⟨other, mem_cons_of_mem _ member, sets⟩) ?_
      exact fun ⟨other, member, begins⟩ => starts ⟨other, mem_cons_of_mem _ member, begins⟩

end Uniform

/-- A property of one run, kept by every step of the performer but the two that change its modes. -/
structure Keeps (handler : Handler δ σ) (I : Performer σ → Prop) : Prop where
  emit : ∀ {p call}, call.isSyncOutput = false → I p → I (p.emit handler call)
  finish : ∀ {p}, I p → I { p with handler := (handler.finishReceivingHook p.handler).2 }
  precede : ∀ {p} c, I p → I { p with precedingChar := c }
  collect : ∀ {p} data, I p → I { p with dcsData := data }
  gather : ∀ {p} data, I p → I { p with apcData := data }
  identify : ∀ {p} n, I p → I { p with images := n }
  write : ∀ {p} w, I p → I { p with written := w }

theorem Keeps.uniform {I : Performer σ → Prop} (keeps : Keeps handler I) : Uniform handler fun p q => p = q ∧ I p where
  precedingChar := fun ⟨same, _⟩ => congrArg _ same
  dcsData := fun ⟨same, _⟩ => congrArg _ same
  apcData := fun ⟨same, _⟩ => congrArg _ same
  images := fun ⟨same, _⟩ => congrArg _ same
  emit := fun other ⟨same, holds⟩ => ⟨same ▸ rfl, keeps.emit other holds⟩
  answer := fun ⟨same, _⟩ => same ▸ rfl
  finish := fun ⟨same, holds⟩ => ⟨same ▸ rfl, keeps.finish holds⟩
  precede := fun _ ⟨same, holds⟩ => ⟨same ▸ rfl, keeps.precede _ holds⟩
  collect := fun _ ⟨same, holds⟩ => ⟨same ▸ rfl, keeps.collect _ holds⟩
  gather := fun _ ⟨same, holds⟩ => ⟨same ▸ rfl, keeps.gather _ holds⟩
  identify := fun _ ⟨same, holds⟩ => ⟨same ▸ rfl, keeps.identify _ holds⟩
  write := fun _ ⟨same, holds⟩ => ⟨same ▸ rfl, keeps.write _ holds⟩

theorem Keeps.run {I : Performer σ → Prop} (keeps : Keeps handler I) {p q : Performer σ} {events : List Event}
    (activates : (∃ event ∈ events, event.setsSyncOutput) → ∀ {p}, I p → I (p.activate handler))
    (starts : (∃ event ∈ events, event.startsControlMode env) → ∀ {p}, I p → I { p with tmuxControlMode := true })
    (holds : I p) (runs : p.run env handler events = some q) : I q := by
  have related := keeps.uniform.run ⟨rfl, holds⟩ events (fun sets _ _ ⟨same, holds⟩ => ⟨same ▸ rfl, activates sets holds⟩)
    (fun begins _ _ ⟨same, holds⟩ => ⟨same ▸ rfl, starts begins holds⟩)
  rw [runs] at related
  cases related with
  | some both => exact both.2

end Warp.Ansi
