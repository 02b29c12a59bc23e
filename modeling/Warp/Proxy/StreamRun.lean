import Warp.Proxy.MultiAgent

namespace Warp.Proxy

open Str EventStream List
open Api (ResponseEvent)

inductive TextEvent where
  | opened (messageId text : String)
  | appended (messageId text : String)
deriving DecidableEq

def TextEvent.text : TextEvent → String
  | opened _ text => text
  | appended _ text => text

def textEvent : ResponseEvent → Option TextEvent
  | .clientActions [.addMessagesToTask _ [⟨messageId, _, _, .agentOutput text⟩]] => some (.opened messageId text)
  | .clientActions [.appendToMessageContent _ ⟨messageId, _, _, .agentOutput text⟩ _] => some (.appended messageId text)
  | _ => none

def textEvents (events : List ResponseEvent) : List TextEvent := events.filterMap textEvent

def messageText (events : List ResponseEvent) : String := String.join ((textEvents events).map TextEvent.text)

/-- The first text opens a message, and the other texts are appended to it. -/
def OneMessage : List TextEvent → Prop
  | [] => True
  | .opened messageId _ :: later => ∀ event ∈ later, ∃ text, event = .appended messageId text
  | .appended _ _ :: _ => False

def FinishesOnce (events : List ResponseEvent) : Prop :=
  ∃ before reason, events = before ++ [.finished reason] ∧ ∀ reason, .finished reason ∉ before

section Join

variable {s : String} {texts more : List String}

theorem join_nil : String.join [] = "" := rfl

theorem foldl_append (start : String) : texts.foldl (· ++ ·) start = start ++ String.join texts := by
  induction texts generalizing start with
  | nil => exact String.append_empty.symm
  | cons s texts ih =>
    unfold String.join
    rw [foldl_cons, foldl_cons, ih, ih, String.empty_append, String.append_assoc]

theorem join_cons : String.join (s :: texts) = s ++ String.join texts := by
  unfold String.join
  rw [foldl_cons, foldl_append, String.empty_append]
  rfl

theorem join_append : String.join (texts ++ more) = String.join texts ++ String.join more := by
  induction texts with
  | nil => exact String.empty_append.symm
  | cons s texts ih => rw [cons_append, join_cons, join_cons, ih, String.append_assoc]

end Join

section MessageText

variable {event : ResponseEvent} {events more : List ResponseEvent}

theorem textEvents_append : textEvents (events ++ more) = textEvents events ++ textEvents more := filterMap_append

theorem messageText_append : messageText (events ++ more) = messageText events ++ messageText more := by
  unfold messageText
  rw [textEvents_append, map_append, join_append]

end MessageText

namespace StreamState

variable {app : AppState} {ids : WarpIds} {self : StreamState} {text : String} {event : ResponseEvent}

theorem textDelta_empty : self.textDelta app ids "" = self := if_pos rfl

theorem textDelta_eq (some : text ≠ "") : ∃ messageId event, self.textDelta app ids text =
      { self with events := self.events ++ [event], outputMessageId := Option.some messageId } ∧
    (self.outputMessageId = Option.some messageId ∧ textEvent event = Option.some (.appended messageId text) ∨
      self.outputMessageId = none ∧ textEvent event = Option.some (.opened messageId text)) ∧
    ∀ reason, event ≠ .finished reason := by
  obtain ⟨events, outputMessageId, toolCalls, parsed, seen, decoder⟩ := self
  unfold textDelta
  rw [if_neg some]
  cases outputMessageId with
  | none => exact ⟨_, _, rfl, Or.inr ⟨rfl, rfl⟩, nofun⟩
  | some messageId => exact ⟨messageId, _, rfl, Or.inl ⟨rfl, rfl⟩, nofun⟩

/-- The events so far are no end of a stream, and their texts are one message, the one that is open. -/
structure Running (state : StreamState) : Prop where
  unfinished : ∀ reason, .finished reason ∉ state.events
  oneMessage : OneMessage (textEvents state.events)
  closed : state.outputMessageId = none → textEvents state.events = []
  isOpen : ∀ messageId, state.outputMessageId = some messageId →
    ∃ text later, textEvents state.events = .opened messageId text :: later

theorem Running.textDelta (running : self.Running) (text : String) : (self.textDelta app ids text).Running := by
  by_cases some : text = ""
  · rw [some, textDelta_empty]
    exact running
  obtain ⟨messageId, event, eq, message, unfinished⟩ := @textDelta_eq app ids self text some
  rw [eq]
  have notFinished : ∀ reason, .finished reason ∉ self.events ++ [event] := by
    intro reason member
    rcases List.mem_append.mp member with before | last
    · exact running.unfinished reason before
    · exact unfinished reason (List.mem_singleton.mp last).symm
  rcases message with ⟨here, textEq⟩ | ⟨nothing, textEq⟩
  · obtain ⟨first, later, texts⟩ := running.isOpen messageId here
    have grown : textEvents (self.events ++ [event]) = .opened messageId first :: (later ++ [.appended messageId text]) := by
      rw [textEvents_append, texts]
      unfold textEvents
      rw [filterMap_cons_some textEq]
      rfl
    refine ⟨notFinished, ?_, nofun, ?_⟩
    · have before := running.oneMessage
      rw [texts] at before
      rw [grown]
      intro other member
      rcases List.mem_append.mp member with inside | last
      · exact before other inside
      · exact ⟨text, List.mem_singleton.mp last⟩
    · rintro _ ⟨⟩
      exact ⟨first, _, grown⟩
  · have grown : textEvents (self.events ++ [event]) = [.opened messageId text] := by
      rw [textEvents_append, running.closed nothing]
      unfold textEvents
      rw [filterMap_cons_some textEq]
      rfl
    refine ⟨notFinished, ?_, nofun, ?_⟩
    · rw [grown]
      exact fun other member => absurd member not_mem_nil
    · rintro _ ⟨⟩
      exact ⟨text, [], grown⟩

theorem Running.emit (running : self.Running) (noText : textEvent event = none)
    (unfinished : ∀ reason, event ≠ .finished reason) : (self.emit event).Running := by
  have same : textEvents (self.events ++ [event]) = textEvents self.events := by
    rw [textEvents_append]
    unfold textEvents
    rw [filterMap_cons_none noText, filterMap_nil, append_nil]
  refine ⟨?_, ?_, ?_, ?_⟩
  · intro reason member
    rcases List.mem_append.mp member with before | last
    · exact running.unfinished reason before
    · exact unfinished reason (List.mem_singleton.mp last).symm
  · show OneMessage (textEvents (self.events ++ [event]))
    rw [same]
    exact running.oneMessage
  · intro nothing
    show textEvents (self.events ++ [event]) = []
    rw [same]
    exact running.closed nothing
  · intro messageId here
    show ∃ text later, textEvents (self.events ++ [event]) = .opened messageId text :: later
    rw [same]
    exact running.isOpen messageId here

theorem Running.of_eq {other : StreamState} (running : self.Running) (events : other.events = self.events)
    (messageId : other.outputMessageId = self.outputMessageId) : other.Running := by
  obtain ⟨unfinished, oneMessage, closed, isOpen⟩ := running
  refine ⟨?_, ?_, ?_, ?_⟩
  · rw [events]
    exact unfinished
  · rw [events]
    exact oneMessage
  · rw [events, messageId]
    exact closed
  · rw [events, messageId]
    exact isOpen

theorem Running.foldl {α : Type} {step : StreamState → α → StreamState} {items : List α}
    (steps : ∀ state item, Running state → (step state item).Running) (running : self.Running) :
    (items.foldl step self).Running := by
  induction items generalizing self with
  | nil => exact running
  | cons item items ih => exact ih (steps self item running)

section

variable (running : self.Running)
include running

theorem Running.content (text : String) : (self.content app ids text).Running := by
  apply Running.textDelta
  exact running.of_eq rfl rfl

theorem Running.onData (data : Str) : (self.onData app ids data).Running := by
  unfold StreamState.onData
  have parsed : Running { self with parsedAnyBackendEvent := true } := running.of_eq rfl rfl
  dsimp only
  split
  · exact parsed
  split
  · apply Running.foldl fun state text running => running.content text
    exact running.of_eq rfl rfl
  · exact parsed.textDelta _

theorem Running.onBytes (bytes : List UInt8) : (self.onBytes app ids bytes).Running := by
  apply Running.foldl fun state data running => running.onData data
  exact running.of_eq rfl rfl

theorem Running.fullResponse : (self.fullResponse app ids).Running := by
  unfold StreamState.fullResponse
  dsimp only
  split
  · exact running
  split
  · apply Running.foldl fun state text running => running.textDelta text
    exact running.of_eq rfl rfl
  · exact running.textDelta _

theorem Running.finish (reason : Api.FinishReason) :
    OneMessage (textEvents (self.emit (.finished reason)).events) ∧ FinishesOnce (self.emit (.finished reason)).events := by
  constructor
  · show OneMessage (textEvents (self.events ++ [.finished reason]))
    rw [textEvents_append]
    show OneMessage (textEvents self.events ++ [])
    rw [append_nil]
    exact running.oneMessage
  · exact ⟨self.events, reason, rfl, running.unfinished⟩

end

theorem Running.readStream (running : self.Running) (chunks : List (Except String (List UInt8))) :
    match self.readStream app ids chunks with
    | .ok state => state.Running
    | .error events => OneMessage (textEvents events) ∧ FinishesOnce events := by
  induction chunks generalizing self with
  | nil => exact running
  | cons chunk chunks ih =>
    cases chunk with
    | ok bytes => exact ih (running.onBytes bytes)
    | error err => exact (running.textDelta _).finish _

theorem textEvent_addToolCallsEvent {calls : List Api.ToolCall} :
    textEvent (addToolCallsEvent app.uuids ids calls) = none := by
  unfold addToolCallsEvent
  rcases calls with - | ⟨call, - | ⟨other, calls⟩⟩
  · rfl
  · rfl
  · rw [mapIdx_cons, mapIdx_cons]
    rfl

theorem Running.yieldOutputs (running : self.Running) :
    OneMessage (textEvents (self.yieldOutputs app ids)) ∧ FinishesOnce (self.yieldOutputs app ids) := by
  unfold StreamState.yieldOutputs
  dsimp only
  apply Running.finish
  obtain ⟨outputs, -⟩ : ∃ outputs, outputs =
    (self.toolCalls.intoWarpClientOutputs app.serde app.uuids.call).foldl (Outputs.add app) {} := ⟨_, rfl⟩
  have suggested : ∀ state : StreamState, state.Running → ∀ suggestions : Api.Suggestions,
      (if suggestions.rules = [] ∧ suggestions.workflows = [] then state
        else state.emit (showSuggestionsEvent suggestions)).Running := by
    intro state running suggestions
    split
    · exact running
    · exact running.emit rfl nofun
  apply suggested
  have called : ∀ state : StreamState, state.Running → ∀ calls : List Api.ToolCall,
      (if calls = [] then state else state.emit (addToolCallsEvent app.uuids ids calls)).Running := by
    intro state running calls
    split
    · exact running
    · exact running.emit textEvent_addToolCallsEvent nofun
  apply called
  apply Running.foldl fun state text running => running.textDelta text
  split
  · exact running
  · exact running.textDelta _

theorem running_start (task : List ResponseEvent) (events : task = [] ∨ task = [createRootTaskEvent ids]) :
    (start ([initEvent ids] ++ task)).Running := by
  rcases events with rfl | rfl
  · refine ⟨fun reason => ?_, trivial, fun _ => rfl, nofun⟩
    simp [start, initEvent]
  · refine ⟨fun reason => ?_, trivial, fun _ => rfl, nofun⟩
    simp [start, initEvent, createRootTaskEvent]

end StreamState

namespace StreamState

variable {app : AppState} {ids : WarpIds} {self : StreamState} {data : Str} {decoder : SseDecoder}

structure Grown (before after : StreamState) (texts : List String) : Prop where
  events : ∃ more, after.events = before.events ++ more ∧ messageText more = String.join texts
  toolCalls : after.toolCalls = before.toolCalls
  parsed : after.parsedAnyBackendEvent = before.parsedAnyBackendEvent
  decoder : after.decoder = before.decoder

theorem grown_textDelta (text : String) : Grown self (self.textDelta app ids text) [text] := by
  refine ⟨?_, ?_, ?_, ?_⟩
  · rw [join_cons, join_nil, String.append_empty]
    by_cases some : text = ""
    · rw [some, textDelta_empty]
      exact ⟨[], (append_nil _).symm, rfl⟩
    obtain ⟨messageId, event, eq, message, -⟩ := @textDelta_eq app ids self text some
    refine ⟨[event], by rw [eq], ?_⟩
    unfold messageText textEvents
    rcases message with ⟨-, textEq⟩ | ⟨-, textEq⟩
    all_goals
      rw [filterMap_cons_some textEq, filterMap_nil, map_cons, map_nil, join_cons, join_nil,
        String.append_empty]
      rfl
  all_goals
    unfold textDelta
    split
    · rfl
    split
    all_goals rfl

variable {texts : List String}

theorem Grown.messageText {before after : StreamState} (grown : Grown before after texts) :
    messageText after.events = Proxy.messageText before.events ++ String.join texts := by
  obtain ⟨more, events, added⟩ := grown.events
  rw [events, messageText_append, added]

theorem Grown.drop {before after : StreamState} (grown : Grown before after texts) :
    Proxy.messageText (after.events.drop before.events.length) = String.join texts := by
  obtain ⟨more, events, added⟩ := grown.events
  rw [events, drop_left, added]

theorem Grown.refl : Grown self self [] := ⟨⟨[], (append_nil _).symm, rfl⟩, rfl, rfl, rfl⟩

theorem Grown.trans {first second third : StreamState} {others : List String} (left : Grown first second texts)
    (right : Grown second third others) : Grown first third (texts ++ others) := by
  refine ⟨?_, right.toolCalls.trans left.toolCalls, right.parsed.trans left.parsed, right.decoder.trans left.decoder⟩
  obtain ⟨more, events, added⟩ := left.events
  obtain ⟨later, eventsLater, addedLater⟩ := right.events
  refine ⟨more ++ later, ?_, ?_⟩
  · rw [eventsLater, events, append_assoc]
  · rw [messageText_append, added, addedLater, join_append]

theorem grown_content (text : String) : Grown self (self.content app ids text) [text] := by
  obtain ⟨events, toolCalls, parsed, decoder⟩ := @grown_textDelta app ids
    { self with seenBackendTextDelta := self.seenBackendTextDelta || text ≠ "" } text
  exact ⟨events, toolCalls, parsed, decoder⟩

theorem seen_content (text : String) :
    (self.content app ids text).seenBackendTextDelta = (self.seenBackendTextDelta || text ≠ "") := by
  unfold content textDelta
  split
  · rfl
  split
  all_goals rfl

theorem foldl_content (texts : List String) : Grown self (texts.foldl (content app ids) self) texts ∧
    (texts.foldl (content app ids) self).seenBackendTextDelta =
      (self.seenBackendTextDelta || texts.any fun text => text ≠ "") := by
  induction texts generalizing self with
  | nil =>
    refine ⟨.refl, ?_⟩
    rw [any_nil, Bool.or_false]
    rfl
  | cons text texts ih =>
    obtain ⟨grown, seen⟩ := @ih (self.content app ids text)
    constructor
    · exact (grown_content text).trans grown
    · rw [foldl_cons, seen, seen_content, any_cons, Bool.or_assoc]

theorem onData_done (done : trim data = "[DONE]".toList) :
    self.onData app ids data = { self with parsedAnyBackendEvent := true } := if_pos done

theorem onData_ok (more : trim data ≠ "[DONE]".toList) {texts : List String} {toolCalls : ToolCallAccumulatorSet}
    (parsed : parseBackendSseData app.serde app.config.wireApi (.ofList data) self.toolCalls
      (!self.seenBackendTextDelta) = .ok (texts, toolCalls)) :
    self.onData app ids data =
      texts.foldl (content app ids) { self with parsedAnyBackendEvent := true, toolCalls } := by
  unfold onData
  dsimp only
  rw [if_neg more, parsed]

theorem onData_error (more : trim data ≠ "[DONE]".toList) {err : String}
    (failed : parseBackendSseData app.serde app.config.wireApi (.ofList data) self.toolCalls
      (!self.seenBackendTextDelta) = .error err) :
    self.onData app ids data = { self with parsedAnyBackendEvent := true }.textDelta app ids
      ("Unable to parse backend SSE chunk as " ++ app.config.wireApi.asStr ++ " delta: " ++ err) := by
  unfold onData
  dsimp only
  rw [if_neg more, failed]

theorem onData_extends : self.events <+: (self.onData app ids data).events := by
  by_cases done : trim data = "[DONE]".toList
  · have same := congrArg StreamState.events (@onData_done app ids self data done)
    exact same ▸ prefix_refl _
  obtain ⟨result, isResult⟩ : ∃ result, parseBackendSseData app.serde app.config.wireApi (.ofList data) self.toolCalls
    (!self.seenBackendTextDelta) = result := ⟨_, rfl⟩
  cases result with
  | error err =>
    rw [onData_error done isResult]
    obtain ⟨more, events, -⟩ := (@grown_textDelta app ids { self with parsedAnyBackendEvent := true } _).events
    exact ⟨more, events.symm⟩
  | ok parsed =>
    rw [onData_ok done isResult]
    obtain ⟨more, events, -⟩ := (@foldl_content app ids
      { self with parsedAnyBackendEvent := true, toolCalls := parsed.2 } parsed.1).1.events
    exact ⟨more, events.symm⟩

theorem textDelta_extends (text : String) : self.events <+: (self.textDelta app ids text).events := by
  obtain ⟨more, events, -⟩ := (@grown_textDelta app ids self text).events
  exact ⟨more, events.symm⟩

theorem yieldOutputs_extends : self.events <+: self.yieldOutputs app ids := by
  unfold yieldOutputs
  dsimp only
  apply List.IsPrefix.trans _ (prefix_append _ _)
  have ifs : ∀ {condition : Prop} [Decidable condition] {before after : StreamState},
      before.events <+: after.events → before.events <+: (if condition then before else after).events := by
    intro condition _ before after extends'
    split
    · exact prefix_refl _
    · exact extends'
  apply List.IsPrefix.trans _ (ifs (prefix_append _ _))
  apply List.IsPrefix.trans _ (ifs (prefix_append _ _))
  have folds : ∀ (texts : List String) (state : StreamState),
      state.events <+: (texts.foldl (textDelta app ids) state).events := by
    intro texts
    induction texts with
    | nil => exact fun state => prefix_refl _
    | cons text texts ih => exact fun state => (textDelta_extends text).trans (ih _)
  apply List.IsPrefix.trans _ (folds _ _)
  exact ifs (textDelta_extends _)

theorem parsed_onData : (self.onData app ids data).parsedAnyBackendEvent = true := by
  by_cases done : trim data = "[DONE]".toList
  · rw [onData_done done]
  obtain ⟨result, isResult⟩ : ∃ result, parseBackendSseData app.serde app.config.wireApi (.ofList data) self.toolCalls
    (!self.seenBackendTextDelta) = result := ⟨_, rfl⟩
  cases result with
  | error err =>
    rw [onData_error done isResult, (grown_textDelta _).parsed]
  | ok parsed =>
    rw [onData_ok done isResult, (foldl_content _).1.parsed]

theorem parsed_foldl (payloads : List Str) : (payloads.foldl (onData app ids) self).parsedAnyBackendEvent =
    (self.parsedAnyBackendEvent || payloads ≠ []) := by
  cases payloads with
  | nil => exact (Bool.or_false _).symm
  | cons data payloads =>
    have stays : ∀ (payloads : List Str) (state : StreamState), state.parsedAnyBackendEvent = true →
        (payloads.foldl (onData app ids) state).parsedAnyBackendEvent = true := by
      intro payloads
      induction payloads with
      | nil => exact fun state parsed => parsed
      | cons data payloads ih => exact fun state _ => ih _ parsed_onData
    rw [foldl_cons, stays payloads _ parsed_onData]
    exact (Bool.or_true _).symm

theorem fullResponse_of_parsed (parsed : self.parsedAnyBackendEvent = true) : self.fullResponse app ids = self := by
  unfold fullResponse
  dsimp only
  rw [parsed, Bool.true_or, if_pos rfl]

theorem textDelta_decoder (text : String) :
    { self with decoder }.textDelta app ids text = { self.textDelta app ids text with decoder } := by
  unfold textDelta
  split
  · rfl
  dsimp only
  split
  all_goals rfl

theorem foldl_decoder {α : Type} {step : StreamState → α → StreamState} {items : List α}
    (steps : ∀ state item, step { state with decoder } item = { step state item with decoder }) :
    items.foldl step { self with decoder } = { items.foldl step self with decoder } := by
  induction items generalizing self with
  | nil => rfl
  | cons item items ih => rw [foldl_cons, steps, ih, foldl_cons]

theorem emit_decoder (event : ResponseEvent) :
    { self with decoder }.emit event = { self.emit event with decoder } := rfl

theorem yieldOutputs_decoder : { self with decoder }.yieldOutputs app ids = self.yieldOutputs app ids := by
  have ifs : ∀ {condition : Prop} [Decidable condition] {before after before' after' : StreamState},
      before' = { before with decoder } → after' = { after with decoder } →
        (if condition then before' else after') = { (if condition then before else after) with decoder } := by
    intro condition _ before after before' after' first second
    split
    · exact first
    · exact second
  unfold yieldOutputs
  dsimp only
  rw [ifs rfl (textDelta_decoder _), foldl_decoder fun state text => textDelta_decoder text,
    ifs rfl (emit_decoder _), ifs rfl (emit_decoder _), emit_decoder]

theorem onData_decoder : { self with decoder }.onData app ids data = { self.onData app ids data with decoder } := by
  by_cases done : trim data = "[DONE]".toList
  · rw [onData_done done, onData_done done]
  obtain ⟨result, isResult⟩ : ∃ result, parseBackendSseData app.serde app.config.wireApi (.ofList data) self.toolCalls
    (!self.seenBackendTextDelta) = result := ⟨_, rfl⟩
  cases result with
  | error err =>
    rw [onData_error done isResult, @onData_error app ids { self with decoder } data done err isResult]
    exact @textDelta_decoder app ids { self with parsedAnyBackendEvent := true } decoder _
  | ok parsed =>
    rw [onData_ok done isResult, @onData_ok app ids { self with decoder } data done parsed.1 parsed.2 isResult]
    exact @foldl_decoder { self with parsedAnyBackendEvent := true, toolCalls := parsed.2 } decoder _ _ parsed.1
      fun state text => @textDelta_decoder app ids
        { state with seenBackendTextDelta := state.seenBackendTextDelta || text ≠ "" } decoder text

theorem readStream_ok (chunks : List (List UInt8)) :
    self.readStream app ids (chunks.map .ok) = .ok (chunks.foldl (onBytes app ids) self) := by
  induction chunks generalizing self with
  | nil => rfl
  | cons bytes chunks ih => exact ih

theorem foldl_onBytes (chunks : List (List UInt8)) : chunks.foldl (onBytes app ids) self =
    { (self.decoder.pushAll (chunks.map fromUtf8Lossy)).1.foldl (onData app ids) self with
      decoder := (self.decoder.pushAll (chunks.map fromUtf8Lossy)).2 } := by
  induction chunks generalizing self with
  | nil => rfl
  | cons bytes chunks ih =>
    have here : self.onBytes app ids bytes =
        { (self.decoder.push (fromUtf8Lossy bytes)).1.foldl (onData app ids) self with
          decoder := (self.decoder.push (fromUtf8Lossy bytes)).2 } :=
      foldl_decoder fun state item => onData_decoder
    rw [foldl_cons, ih, here, map_cons, SseDecoder.pushAll]
    dsimp only
    rw [foldl_decoder fun state item => onData_decoder, List.foldl_append]

end StreamState

def StreamState.first {Task : Type} (ids : WarpIds) (tasks : Option (List Task)) : StreamState :=
  start ([initEvent ids] ++ if (tasks.getD []).isEmpty then [createRootTaskEvent ids] else [])

theorem proxyMultiAgent_ok {Task : Type} {app : AppState} {ids : WarpIds} {tasks : Option (List Task)}
    {path status text : String} (configured : app.config.openaiApiKey ≠ none) (chunks : List (List UInt8)) :
    proxyMultiAgent app ids tasks path (.ok ⟨status, true, text, chunks.map .ok⟩) =
      ((chunks.foldl (StreamState.onBytes app ids) (.first ids tasks)).fullResponse app ids).yieldOutputs app ids := by
  unfold proxyMultiAgent
  dsimp only
  rw [if_neg configured, if_neg (by decide), StreamState.readStream_ok]
  rfl

theorem proxyMultiAgent_finishes {Task : Type} (app : AppState) (ids : WarpIds) (tasks : Option (List Task))
    (path : String) (backendResult : Except String BackendResponse) :
    OneMessage (textEvents (proxyMultiAgent app ids tasks path backendResult)) ∧
      FinishesOnce (proxyMultiAgent app ids tasks path backendResult) := by
  have running := @StreamState.running_start ids
    (if (tasks.getD []).isEmpty then [createRootTaskEvent ids] else []) (by split <;> simp)
  unfold proxyMultiAgent
  dsimp only
  split
  · exact (running.textDelta _).finish _
  split
  · exact (running.textDelta _).finish _
  split
  · exact (running.textDelta _).finish _
  next response _ =>
    have read := @StreamState.Running.readStream app ids _ running response.bytesStream
    split
    · next events stopped =>
      rw [stopped] at read
      exact read
    · next state finished =>
      rw [finished] at read
      exact read.fullResponse.yieldOutputs

end Warp.Proxy
