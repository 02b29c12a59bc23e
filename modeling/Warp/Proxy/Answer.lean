import Warp.Proxy.StreamRun

namespace Warp.Proxy

open Str EventStream Json List

inductive AnswerEvent where
  | outputText (delta : String)
  | reasoning (delta : String)
  | toolCall
  | completed (response : Json)

namespace AnswerEvent

def toolCallTypes : List String :=
  ["response.function_call_arguments.delta", "response.function_call_arguments.done", "response.output_item.added",
    "response.output_item.done"]

def Is (json : Json) : AnswerEvent → Prop
  | outputText delta =>
    (json.get "type").bind asStr = some "response.output_text.delta" ∧ (json.get "delta").bind asStr = some delta
  | reasoning delta =>
    (json.get "type").bind asStr = some "response.reasoning_summary_text.delta" ∧
      (json.get "delta").bind asStr = some delta
  | toolCall => ∃ type ∈ toolCallTypes, (json.get "type").bind asStr = some type
  | completed response =>
    (json.get "type").bind asStr = some "response.completed" ∧ json.get "response" = some response

/-- The texts of an event, where `whole` is whether the whole answer is taken from the last one. -/
def texts (whole : Bool) : AnswerEvent → List String
  | outputText delta => [delta]
  | reasoning delta => [delta]
  | toolCall => []
  | completed response => if whole then responsesOutputText response else []

def answerTypes : List String := ["response.output_text.delta", "response.completed"]

def isAnswer : AnswerEvent → Bool
  | outputText _ => true
  | reasoning _ => false
  | toolCall => false
  | completed _ => true

variable {event : AnswerEvent} {json : Json}

theorem is_apply (is : event.Is json) (toolCalls : ToolCallAccumulatorSet) (whole : Bool) :
    ∃ after, applyResponsesEvent json toolCalls whole = .ok (event.texts whole, after) := by
  unfold applyResponsesEvent
  cases event with
  | outputText delta =>
    obtain ⟨type, delta⟩ := is
    simp only [type, delta]
    exact ⟨toolCalls, rfl⟩
  | reasoning delta =>
    obtain ⟨type, delta⟩ := is
    simp only [type, delta]
    exact ⟨toolCalls, rfl⟩
  | toolCall =>
    obtain ⟨type, member, type'⟩ := is
    simp only [type']
    rcases List.mem_cons.mp member with rfl | member
    · exact ⟨_, rfl⟩
    rcases List.mem_cons.mp member with rfl | member
    · cases (json.get "arguments").bind asStr with
      | none => exact ⟨_, rfl⟩
      | some arguments => exact ⟨_, rfl⟩
    rcases List.mem_pair.mp member with rfl | rfl
    all_goals
      cases json.get "item" with
      | none => exact ⟨_, rfl⟩
      | some item => exact ⟨_, rfl⟩
  | completed response =>
    obtain ⟨type, response⟩ := is
    simp only [type, response]
    exact ⟨_, rfl⟩

theorem toolCall_not_answer : ∀ type ∈ toolCallTypes,
    (answerTypes.any fun answerType => some type = some answerType) = false := by decide

theorem isAnswer_eq (is : event.Is json) :
    (answerTypes.any fun type => (json.get "type").bind asStr = some type) = event.isAnswer := by
  cases event with
  | outputText delta =>
    rw [is.1]
    rfl
  | reasoning delta =>
    rw [is.1]
    rfl
  | toolCall =>
    obtain ⟨type, member, isType⟩ := is
    rw [isType]
    exact toolCall_not_answer type member
  | completed response =>
    rw [is.1]
    rfl

end AnswerEvent

def isDone (data : Str) : Bool := trim data = "[DONE]".toList

def carriesAnswer (serde : SerdeJson) (data : Str) : Bool :=
  match serde.fromStr (.ofList data) with
  | .ok json => AnswerEvent.answerTypes.any fun type => (json.get "type").bind asStr = some type
  | .error _ => false

def contributions (app : AppState) (ids : WarpIds) : StreamState → List Str → List (Str × String)
  | _, [] => []
  | state, data :: payloads =>
    (data, messageText ((state.onData app ids data).events.drop state.events.length)) ::
      contributions app ids (state.onData app ids data) payloads

def answerText (app : AppState) (contributions : List (Str × String)) : String :=
  String.join ((contributions.filter fun entry => carriesAnswer app.serde entry.1).map Prod.snd)

def decodedPayloads (chunks : List (List UInt8)) : List Str :=
  (SseDecoder.empty.pushAll (chunks.map fromUtf8Lossy)).1

def Reads (serde : SerdeJson) (data : Str) (event : AnswerEvent) : Prop :=
  ∃ json, serde.fromStr (.ofList data) = .ok json ∧ event.Is json

/-- The parts of the answer that the events bring, where `seen` is whether there was text before. -/
def answerParts (seen : Bool) : List AnswerEvent → List String
  | [] => []
  | event :: events =>
    (if event.isAnswer then event.texts (!seen) else []) ++
      answerParts (seen || (event.texts (!seen)).any fun text => text ≠ "") events

def outputDeltas (events : List AnswerEvent) : List String :=
  events.filterMap fun
    | .outputText delta => some delta
    | _ => none

def reasoningDeltas (events : List AnswerEvent) : List String :=
  events.filterMap fun
    | .reasoning delta => some delta
    | _ => none

section Run

variable {app : AppState} {ids : WarpIds} {state : StreamState} {data : Str} {payloads : List Str}
  {event : AnswerEvent} {events : List AnswerEvent}

theorem messageText_contributions (state : StreamState) (payloads : List Str) :
    messageText (payloads.foldl (StreamState.onData app ids) state).events =
      messageText state.events ++ String.join ((contributions app ids state payloads).map Prod.snd) := by
  induction payloads generalizing state with
  | nil => exact String.append_empty.symm
  | cons data payloads ih =>
    obtain ⟨more, extended⟩ := @StreamState.onData_extends app ids state data
    rw [foldl_cons, ih, contributions, map_cons, join_cons, ← String.append_assoc]
    rw [← extended, drop_left, messageText_append]

theorem parse_reads (responses : app.config.wireApi = .responses) (reads : Reads app.serde data event)
    (toolCalls : ToolCallAccumulatorSet) (whole : Bool) : ∃ after,
    parseBackendSseData app.serde app.config.wireApi (.ofList data) toolCalls whole = .ok (event.texts whole, after) := by
  obtain ⟨json, read, is⟩ := reads
  obtain ⟨after, applied⟩ := AnswerEvent.is_apply is toolCalls whole
  refine ⟨after, ?_⟩
  rw [responses]
  show (app.serde.fromStr (.ofList data)).bind _ = _
  rw [read]
  exact applied

theorem onData_reads (responses : app.config.wireApi = .responses) (more : isDone data = false)
    (reads : Reads app.serde data event) :
    messageText ((state.onData app ids data).events.drop state.events.length) =
        String.join (event.texts !state.seenBackendTextDelta) ∧
      (state.onData app ids data).seenBackendTextDelta =
        (state.seenBackendTextDelta || (event.texts !state.seenBackendTextDelta).any fun text => text ≠ "") := by
  obtain ⟨after, parsed⟩ := parse_reads responses reads state.toolCalls !state.seenBackendTextDelta
  rw [StreamState.onData_ok (of_decide_eq_false more) parsed]
  obtain ⟨grown, seen⟩ := @StreamState.foldl_content app ids
    { state with parsedAnyBackendEvent := true, toolCalls := after } (event.texts !state.seenBackendTextDelta)
  exact ⟨grown.drop, seen⟩

theorem carriesAnswer_reads (reads : Reads app.serde data event) : carriesAnswer app.serde data = event.isAnswer := by
  obtain ⟨json, read, is⟩ := reads
  unfold carriesAnswer
  rw [read]
  exact AnswerEvent.isAnswer_eq is

theorem answerText_cons {text : String} {rest : List (Str × String)} : answerText app ((data, text) :: rest) =
    (if carriesAnswer app.serde data then text else "") ++ answerText app rest := by
  unfold answerText
  rw [filter_cons]
  split
  · rw [map_cons, join_cons]
  · rw [String.empty_append]

theorem answerText_contributions (responses : app.config.wireApi = .responses)
    (reads : List.Forall₂ (Reads app.serde) (payloads.filter fun data => !isDone data) events) :
    answerText app (contributions app ids state payloads) =
      String.join (answerParts state.seenBackendTextDelta events) := by
  induction payloads generalizing state events with
  | nil =>
    cases reads
    rfl
  | cons data payloads ih =>
    rw [contributions, answerText_cons]
    cases done : isDone data with
    | true =>
      rw [filter_cons_of_neg (by rw [done]; decide)] at reads
      have same := @StreamState.onData_done app ids state data (of_decide_eq_true done)
      rw [ih reads, same, drop_length]
      split
      all_goals exact String.empty_append
    | false =>
      rw [filter_cons_of_pos (by rw [done]; decide)] at reads
      cases reads with
      | cons here later =>
        obtain ⟨brought, seen⟩ := @onData_reads app ids state data _ responses done here
        rw [ih later, brought, seen, carriesAnswer_reads here, answerParts, join_append]
        split
        all_goals rfl

theorem answerParts_completed {seen : Bool} {response : Json} (open' : ∀ response, .completed response ∉ events) :
    answerParts seen (events ++ [.completed response]) = outputDeltas events ++
      (if seen || (outputDeltas events ++ reasoningDeltas events).any fun text => text ≠ "" then []
        else responsesOutputText response) := by
  induction events generalizing seen with
  | nil =>
    cases seen with
    | false => exact append_nil _
    | true => rfl
  | cons event events ih =>
    have later := fun seen => @ih seen fun response member => open' response (mem_cons_of_mem _ member)
    rw [cons_append, answerParts, later]
    cases event with
    | outputText delta =>
      have deltas : outputDeltas (.outputText delta :: events) = delta :: outputDeltas events := rfl
      have thoughts : reasoningDeltas (.outputText delta :: events) = reasoningDeltas events := rfl
      rw [deltas, thoughts, cons_append, cons_append, any_cons, ← Bool.or_assoc, AnswerEvent.texts,
        any_cons, any_nil, Bool.or_false]
      rfl
    | reasoning delta =>
      have deltas : outputDeltas (.reasoning delta :: events) = outputDeltas events := rfl
      have thoughts : reasoningDeltas (.reasoning delta :: events) = delta :: reasoningDeltas events := rfl
      rw [deltas, thoughts, any_append, any_append, any_cons, AnswerEvent.texts, any_cons,
        any_nil, Bool.or_false, Bool.or_left_comm _ (decide (delta ≠ "")), Bool.or_assoc]
      rfl
    | toolCall =>
      show [] ++ (outputDeltas events ++ _) = outputDeltas events ++ _
      rw [nil_append, AnswerEvent.texts, any_nil, Bool.or_false]
      rfl
    | completed response => exact absurd mem_cons_self (open' response)

theorem join_eq_empty {texts : List String} : String.join texts = "" ↔ ∀ text ∈ texts, text = "" := by
  induction texts with
  | nil => simp only [join_nil, not_mem_nil, false_implies, implies_true]
  | cons text texts ih => rw [join_cons, String.append_eq_empty_iff, ih, forall_mem_cons]

theorem join_answerParts {response : Json} (open' : ∀ response, .completed response ∉ events)
    (whole : String.join (responsesOutputText response) = String.join (outputDeltas events) ∨ outputDeltas events = []) :
    String.join (answerParts false (events ++ [.completed response])) = String.join (responsesOutputText response) ↔
      (∃ delta ∈ outputDeltas events, delta ≠ "") ∨ (∀ delta ∈ reasoningDeltas events, delta = "") ∨
        String.join (responsesOutputText response) = "" := by
  rw [answerParts_completed open', join_append, Bool.false_or, any_append]
  by_cases some : ∃ delta ∈ outputDeltas events, delta ≠ ""
  · have seen : ((outputDeltas events).any fun text => text ≠ "") = true := by simpa using some
    have deltas : String.join (responsesOutputText response) = String.join (outputDeltas events) := by
      rcases whole with same | none
      · exact same
      · obtain ⟨delta, member, -⟩ := some
        rw [none] at member
        cases member
    rw [seen, Bool.true_or, if_pos rfl, join_nil, String.append_empty, deltas]
    exact iff_of_true rfl (Or.inl some)
  have none : ((outputDeltas events).any fun text => text ≠ "") = false := by simpa using some
  have blank : String.join (outputDeltas events) = "" := by
    rw [join_eq_empty]
    simpa using some
  rw [none, Bool.false_or, blank, String.empty_append, or_iff_right some]
  by_cases thought : ((reasoningDeltas events).any fun text => text ≠ "") = true
  · rw [if_pos thought, join_nil, eq_comm]
    apply (or_iff_right _).symm
    intro quiet
    simp only [List.any_eq_true] at thought
    obtain ⟨delta, member, nonempty⟩ := thought
    exact of_decide_eq_true nonempty (quiet delta member)
  · rw [if_neg thought]
    exact iff_of_true rfl (Or.inl (by simpa using thought))

end Run

/-- A Responses body whose events are text deltas, reasoning deltas, tool call events and last a completed one, which
has the text of the deltas, or text although there was no delta. -/
structure AnswerStream (app : AppState) where
  configured : app.config.openaiApiKey ≠ none
  responses : app.config.wireApi = .responses
  chunks : List (List UInt8)
  events : List AnswerEvent
  response : Json
  reads : List.Forall₂ (Reads app.serde) ((decodedPayloads chunks).filter fun data => !isDone data)
    (events ++ [.completed response])
  last : ∀ response, .completed response ∉ events
  whole : String.join (responsesOutputText response) = String.join (outputDeltas events) ∨ outputDeltas events = []

namespace AnswerStream

variable {Task : Type} {app : AppState}

def contributions (self : AnswerStream app) (ids : WarpIds) (tasks : Option (List Task)) : List (Str × String) :=
  Proxy.contributions app ids (.first ids tasks) (decodedPayloads self.chunks)

def outputText (self : AnswerStream app) : String := String.join (responsesOutputText self.response)

def backendResult (self : AnswerStream app) (status text : String) : Except String BackendResponse :=
  .ok ⟨status, true, text, self.chunks.map .ok⟩

theorem messageText_first {ids : WarpIds} {tasks : Option (List Task)} :
    messageText (StreamState.first ids tasks).events = "" := by
  unfold StreamState.first
  split
  all_goals rfl

theorem messageText_eq (self : AnswerStream app) (ids : WarpIds) (tasks : Option (List Task))
    (path status text : String) : ∃ later,
    messageText (proxyMultiAgent app ids tasks path (self.backendResult status text)) =
      String.join ((self.contributions ids tasks).map Prod.snd) ++ later := by
  have some : decodedPayloads self.chunks ≠ [] := by
    intro none
    have reads := self.reads
    rw [none] at reads
    exact append_ne_nil_of_right_ne_nil _ (cons_ne_nil _ _) (List.forall₂_nil_left_iff.mp reads)
  unfold backendResult
  rw [proxyMultiAgent_ok self.configured, StreamState.foldl_onBytes, StreamState.fullResponse_of_parsed]
  · obtain ⟨more, events⟩ := @StreamState.yieldOutputs_extends app ids
      { (decodedPayloads self.chunks).foldl (StreamState.onData app ids) (.first ids tasks) with
        decoder := (SseDecoder.empty.pushAll (self.chunks.map fromUtf8Lossy)).2 }
    refine ⟨messageText more, ?_⟩
    have before := @messageText_contributions app ids (.first ids tasks) (decodedPayloads self.chunks)
    rw [messageText_first, String.empty_append] at before
    show messageText (StreamState.yieldOutputs app ids
      { (decodedPayloads self.chunks).foldl (StreamState.onData app ids) (.first ids tasks) with
        decoder := (SseDecoder.empty.pushAll (self.chunks.map fromUtf8Lossy)).2 }) = _
    rw [← events, messageText_append]
    exact congrArg (· ++ messageText more) before
  · show ((decodedPayloads self.chunks).foldl (StreamState.onData app ids) (.first ids tasks)).parsedAnyBackendEvent = true
    rw [StreamState.parsed_foldl, decide_eq_true some, Bool.or_true]

end AnswerStream

def SerdeJson.sampleReasoning : String :=
  "\x7b\"type\":\"response.reasoning_summary_text.delta\",\"delta\":\"Thinking\"\x7d"

def SerdeJson.sampleCompleted : String :=
  "\x7b\"type\":\"response.completed\",\"response\":\x7b\"output_text\":\"Hello\"\x7d\x7d"

def SerdeJson.sampleResponse : Json := object [("output_text", .string "Hello")]

def SerdeJson.sampleReasoningEvent : Json :=
  object [("type", .string "response.reasoning_summary_text.delta"), ("delta", .string "Thinking")]

def SerdeJson.sampleCompletedEvent : Json :=
  object [("type", .string "response.completed"), ("response", sampleResponse)]

/-- Reads the two texts of the sample as a JSON parser does. -/
def SerdeJson.sampleReader : SerdeJson where
  fromStr := fun text =>
    if text = sampleReasoning then .ok sampleReasoningEvent
    else if text = sampleCompleted then .ok sampleCompletedEvent
    else .error "expected value at line 1 column 1"
  toString := fun _ => ""
  typeError := fun _ => "invalid type"

theorem SerdeJson.sampleReader_reasoning : sampleReader.fromStr sampleReasoning = .ok sampleReasoningEvent := by
  simp only [sampleReader, if_true]

theorem SerdeJson.sampleReader_completed : sampleReader.fromStr sampleCompleted = .ok sampleCompletedEvent := by
  have other : sampleCompleted ≠ sampleReasoning := by decide +kernel
  simp only [sampleReader, if_neg other, if_true]

def AppState.sample : AppState where
  config := ⟨some "key", .responses⟩
  serde := .sampleReader
  uuids := ⟨"1", fun _ => "2", fun _ _ => "3"⟩
  codexAuthHint := "~/.codex/auth.json"
  saveLocalKnowledge := fun _ => .error "no directory"

def WarpIds.sample : WarpIds := ⟨"conv_1", "req_1", "conv_1", "task_1"⟩

def AnswerStream.sampleBody : Str :=
  "data: ".toList ++ SerdeJson.sampleReasoning.toList ++ "\n\ndata: ".toList ++ SerdeJson.sampleCompleted.toList ++
    "\n\n".toList

theorem AnswerStream.sample_payloads : decodedPayloads [bytes sampleBody] =
    [SerdeJson.sampleReasoning.toList, SerdeJson.sampleCompleted.toList] := by
  unfold decodedPayloads
  rw [SseDecoder.pushAll_eq rfl, map_cons, fromUtf8Lossy_bytes]
  decide +kernel

def AnswerStream.sample : AnswerStream .sample where
  configured := by decide
  responses := rfl
  chunks := [bytes sampleBody]
  events := [.reasoning "Thinking"]
  response := SerdeJson.sampleResponse
  reads := by
    have kept : (decodedPayloads [bytes sampleBody]).filter (fun data => !isDone data) =
        [SerdeJson.sampleReasoning.toList, SerdeJson.sampleCompleted.toList] := by
      rw [sample_payloads]
      decide +kernel
    rw [kept]
    apply List.Forall₂.cons
    · refine ⟨SerdeJson.sampleReasoningEvent, ?_, rfl, rfl⟩
      rw [String.ofList_toList]
      exact SerdeJson.sampleReader_reasoning
    apply List.Forall₂.cons
    · refine ⟨SerdeJson.sampleCompletedEvent, ?_, rfl, rfl⟩
      rw [String.ofList_toList]
      exact SerdeJson.sampleReader_completed
    exact List.Forall₂.nil
  last := by
    intro response member
    cases List.mem_singleton.mp member
  whole := Or.inr rfl

end Warp.Proxy
