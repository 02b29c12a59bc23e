import Warp.Proxy.ChatRequest

namespace Warp.Proxy

open List Option

inductive Exchange where
  | call (id : String)
  | output (id : String)
deriving DecidableEq

namespace Exchange

def WellPaired (exchanges : List Exchange) : Prop :=
  ∀ id, call id ∈ exchanges ∨ output id ∈ exchanges →
    exchanges.count (call id) = 1 ∧ exchanges.count (output id) = 1 ∧ [call id, output id].Sublist exchanges

def answered (exchanges : List Exchange) : Exchange → Bool
  | call id => output id ∈ exchanges
  | output id => call id ∈ exchanges

def retain (exchanges : List Exchange) : List Exchange := exchanges.filter (answered exchanges)

variable {exchanges : List Exchange} {id : String}

theorem call_mem_retain : call id ∈ retain exchanges ↔ call id ∈ exchanges ∧ output id ∈ exchanges := by
  unfold retain
  rw [List.mem_filter]
  exact and_congr_right fun _ => decide_eq_true_iff

theorem output_mem_retain : output id ∈ retain exchanges ↔ call id ∈ exchanges ∧ output id ∈ exchanges := by
  unfold retain
  rw [List.mem_filter, and_comm]
  exact and_congr_left fun _ => decide_eq_true_iff

theorem retain_both : call id ∈ retain exchanges ↔ output id ∈ retain exchanges := by
  rw [call_mem_retain, output_mem_retain]

theorem count_retain {exchange : Exchange} (kept : answered exchanges exchange = true) :
    (retain exchanges).count exchange = exchanges.count exchange := count_filter kept

theorem wellPaired_retain : WellPaired (retain exchanges) ↔
    ∀ id, call id ∈ exchanges → output id ∈ exchanges →
      exchanges.count (call id) = 1 ∧ exchanges.count (output id) = 1 ∧ [call id, output id].Sublist exchanges := by
  have each : ∀ id, call id ∈ exchanges → output id ∈ exchanges →
      ((retain exchanges).count (call id) = 1 ∧ (retain exchanges).count (output id) = 1 ∧
          [call id, output id].Sublist (retain exchanges) ↔
        exchanges.count (call id) = 1 ∧ exchanges.count (output id) = 1 ∧ [call id, output id].Sublist exchanges) := by
    intro id isCall isOutput
    have keptCall : answered exchanges (call id) = true := decide_eq_true isOutput
    have keptOutput : answered exchanges (output id) = true := decide_eq_true isCall
    rw [count_retain keptCall, count_retain keptOutput]
    apply and_congr_right
    intro _
    apply and_congr_right
    intro _
    constructor
    · intro sublist
      exact sublist.trans filter_sublist
    · intro sublist
      have filtered := sublist.filter (answered exchanges)
      rw [filter_cons_of_pos keptCall, filter_cons_of_pos keptOutput, filter_nil] at filtered
      exact filtered
  constructor
  · intro paired id isCall isOutput
    exact (each id isCall isOutput).mp (paired id (Or.inl (call_mem_retain.mpr ⟨isCall, isOutput⟩)))
  · intro unique id kept
    have both : call id ∈ exchanges ∧ output id ∈ exchanges := by
      rcases kept with kept | kept
      · exact call_mem_retain.mp kept
      · exact output_mem_retain.mp kept
    exact (each id both.1 both.2).mpr (unique id both.1 both.2)

end Exchange

section Items

open Json

def exchange (item : Json) : Option Exchange :=
  if itemType item = some "function_call" then (valueCallId item).map .call
  else if itemType item = some "function_call_output" then (valueCallId item).map .output
  else none

def exchanges (input : List Json) : List Exchange := input.filterMap exchange

variable {item : Json} {input : List Json} {id : String}

theorem exchange_eq_call : exchange item = some (.call id) ↔
    itemType item = some "function_call" ∧ valueCallId item = some id := by
  unfold exchange
  split
  · next isCall =>
    rw [map_eq_some_iff, and_iff_right isCall]
    simp
  · next notCall =>
    apply iff_of_false
    · split
      all_goals simp
    · exact fun both => notCall both.1

theorem exchange_eq_output : exchange item = some (.output id) ↔
    itemType item = some "function_call_output" ∧ valueCallId item = some id := by
  unfold exchange
  split
  · next isCall =>
    apply iff_of_false
    · simp
    · rw [isCall]
      exact fun both => absurd both.1 (by decide)
  split
  · next isOutput =>
    rw [map_eq_some_iff, and_iff_right isOutput]
    simp
  · next notOutput =>
    apply iff_of_false
    · simp
    · exact fun both => notOutput both.1

theorem mem_callIds {type : String} : id ∈ callIds type input ↔
    ∃ item ∈ input, itemType item = some type ∧ valueCallId item = some id := by
  unfold callIds
  rw [mem_filterMap]
  constructor
  · rintro ⟨item, member, isId⟩
    obtain ⟨inside, isType⟩ := List.mem_filter.mp member
    exact ⟨item, inside, of_decide_eq_true isType, isId⟩
  · rintro ⟨item, inside, isType, isId⟩
    exact ⟨item, List.mem_filter.mpr ⟨inside, decide_eq_true isType⟩, isId⟩

theorem call_mem_exchanges : .call id ∈ exchanges input ↔ id ∈ callIds "function_call" input := by
  unfold exchanges
  rw [mem_filterMap, mem_callIds]
  apply exists_congr
  intro item
  rw [exchange_eq_call]

theorem output_mem_exchanges : .output id ∈ exchanges input ↔ id ∈ callIds "function_call_output" input := by
  unfold exchanges
  rw [mem_filterMap, mem_callIds]
  apply exists_congr
  intro item
  rw [exchange_eq_output]

def keeps (input : List Json) (item : Json) : Bool :=
  if itemType item = some "function_call" then
    (valueCallId item).any fun callId => callId ∈ callIds "function_call_output" input
  else if itemType item = some "function_call_output" then
    (valueCallId item).any fun callId => callId ∈ callIds "function_call" input
  else true

theorem keeps_exchange {half : Exchange} (isHalf : exchange item = some half) :
    keeps input item = half.answered (exchanges input) := by
  unfold keeps
  cases half with
  | call id =>
    obtain ⟨isCall, isId⟩ := exchange_eq_call.mp isHalf
    rw [if_pos isCall, isId]
    exact decide_eq_decide.mpr output_mem_exchanges.symm
  | output id =>
    obtain ⟨isOutput, isId⟩ := exchange_eq_output.mp isHalf
    rw [if_neg (by rw [isOutput]; decide), if_pos isOutput, isId]
    exact decide_eq_decide.mpr call_mem_exchanges.symm

theorem exchanges_retain (input : List Json) :
    exchanges (retainPairedFunctionIo input) = Exchange.retain (exchanges input) := by
  have each : ∀ items : List Json, exchanges (items.filter (keeps input)) =
      (exchanges items).filter (Exchange.answered (exchanges input)) := by
    intro items
    induction items with
    | nil => rfl
    | cons item items ih =>
      unfold exchanges at ih ⊢
      cases isHalf : exchange item with
      | none =>
        rw [filterMap_cons_none isHalf, ← ih, filter_cons]
        split
        · rw [filterMap_cons_none isHalf]
        · rfl
      | some half =>
        rw [filterMap_cons_some isHalf, filter_cons, filter_cons]
        have same : keeps input item = half.answered (List.filterMap exchange input) := keeps_exchange isHalf
        rw [same]
        split
        · rw [filterMap_cons_some isHalf, ih]
        · exact ih
  exact each input

end Items

section Messages

open Json OpenAIChatMessage

def functionCallItem (toolCall : OpenAIMessageToolCall) : Json :=
  object [("type", .string "function_call"), ("call_id", .string toolCall.id),
    ("name", .string toolCall.function.name), ("arguments", .string toolCall.function.arguments)]

def functionCallOutputItem (callId output : String) : Json :=
  object [("type", .string "function_call_output"), ("call_id", .string callId), ("output", .string output)]

def OpenAIChatMessage.halves (message : OpenAIChatMessage) : List Exchange :=
  (if message.role = "tool" ∧ (message.content.getD "") ≠ "" then (message.toolCallId.map .output).toList else []) ++
    (message.toolCalls.getD []).map fun toolCall => .call toolCall.id

def OpenAIChatMessage.Identified (message : OpenAIChatMessage) : Prop :=
  message.role = "tool" → message.toolCallId.isSome = true

variable {uuid : String} {message : OpenAIChatMessage} {messages : List OpenAIChatMessage}

theorem exchange_functionCallItem (toolCall : OpenAIMessageToolCall) :
    exchange (functionCallItem toolCall) = some (.call toolCall.id) :=
  exchange_eq_call.mpr ⟨rfl, rfl⟩

theorem exchange_functionCallOutputItem (callId output : String) :
    exchange (functionCallOutputItem callId output) = some (.output callId) :=
  exchange_eq_output.mpr ⟨rfl, rfl⟩

theorem exchanges_append {input more : List Json} : exchanges (input ++ more) = exchanges input ++ exchanges more :=
  filterMap_append

theorem exchanges_calls (toolCalls : List OpenAIMessageToolCall) :
    exchanges (toolCalls.map functionCallItem) = toolCalls.map fun toolCall => .call toolCall.id := by
  induction toolCalls with
  | nil => rfl
  | cons toolCall toolCalls ih =>
    rw [map_cons, exchanges, filterMap_cons_some (exchange_functionCallItem toolCall)]
    exact congrArg (List.cons _) ih

theorem exchanges_items (identified : message.Identified) :
    exchanges (responsesInputItemsFromChatMessage uuid message) = message.halves := by
  obtain ⟨role, content, toolCallId, toolCalls⟩ := message
  unfold responsesInputItemsFromChatMessage OpenAIChatMessage.halves
  dsimp only
  rw [exchanges_append]
  congr 1
  · cases content with
    | none => exact (if_neg fun both => both.2 rfl).symm
    | some content =>
      by_cases nothing : content = ""
      · subst nothing
        exact (if_neg fun both => both.2 rfl).symm
      have kept : (some content).filter (fun content => content ≠ "") = some content :=
        filter_some_pos (decide_eq_true nothing)
      rw [kept]
      dsimp only
      by_cases isTool : role = "tool"
      · obtain ⟨id, rfl⟩ := Option.isSome_iff_exists.mp (identified isTool)
        rw [if_pos isTool, if_pos ⟨isTool, nothing⟩]
        show exchanges [functionCallOutputItem id content] = [.output id]
        unfold exchanges
        rw [filterMap_cons_some (exchange_functionCallOutputItem id content), filterMap_nil]
      · rw [if_neg isTool, if_neg fun both => isTool both.1]
        rfl
  · exact exchanges_calls _

theorem exchanges_messages {uuid : ℕ → String} (identified : ∀ message ∈ messages, message.Identified) :
    exchanges (messages.mapIdx fun i message => responsesInputItemsFromChatMessage (uuid i) message).flatten =
      messages.flatMap OpenAIChatMessage.halves := by
  induction messages generalizing uuid with
  | nil => rfl
  | cons message messages ih =>
    obtain ⟨here, later⟩ := List.forall_mem_cons.mp identified
    rw [mapIdx_cons, flatten_cons, exchanges_append, exchanges_items here, flatMap_cons,
      @ih (fun i => uuid (i + 1)) later]

theorem mem_items {uuid : ℕ → String} {item : Json} (member : message ∈ messages)
    (inside : ∀ uuid, item ∈ responsesInputItemsFromChatMessage uuid message) :
    item ∈ (messages.mapIdx fun i message => responsesInputItemsFromChatMessage (uuid i) message).flatten := by
  obtain ⟨i, bound, rfl⟩ := getElem_of_mem member
  apply mem_flatten_of_mem _ (inside (uuid i))
  rw [mem_mapIdx]
  exact ⟨i, bound, rfl⟩

theorem mem_items_assistantToolCall (toolCall : OpenAIMessageToolCall) :
    functionCallItem toolCall ∈ responsesInputItemsFromChatMessage uuid (assistantToolCall toolCall) :=
  mem_append_right _ (mem_singleton_self _)

theorem mem_items_tool {callId output : String} (some : output ≠ "") :
    functionCallOutputItem callId output ∈ responsesInputItemsFromChatMessage uuid (tool callId output) := by
  have kept : (Option.some output).filter (fun content => content ≠ "") = Option.some output :=
    filter_some_pos (decide_eq_true some)
  unfold responsesInputItemsFromChatMessage OpenAIChatMessage.tool
  dsimp only
  rw [kept]
  exact mem_append_left _ (mem_singleton_self _)

end Messages

namespace Api

def HistoryMessage.toolCall? : Option HistoryMessage → Option ToolCall
  | some (.toolCall call) => some call
  | _ => none

def HistoryMessage.result? : Option HistoryMessage → Option ToolCallResult
  | some (.toolCallResult result) => some result
  | _ => none

def UserInput.result? : Option UserInput → Option ToolCallResult
  | some (.toolCallResult result) => some result
  | _ => none

def InputType.results : InputType → List ToolCallResult
  | .userInputs inputs => inputs.filterMap UserInput.result?
  | .toolCallResult result => [result]
  | _ => []

namespace Request

def history (self : Request) : List (Option HistoryMessage) := (self.taskContext.getD []).flatMap Task.messages

def toolCalls (self : Request) : List ToolCall := self.history.filterMap HistoryMessage.toolCall?

def inputResults (self : Request) : List ToolCallResult :=
  ((self.input.bind Input.type).map InputType.results).getD []

def results (self : Request) : List ToolCallResult :=
  self.history.filterMap HistoryMessage.result? ++ self.inputResults

end Request

end Api

def historyExchanges (serde : SerdeJson) : Option Api.HistoryMessage → List Exchange
  | some (.toolCall call) => ((warpToolCallToOpenai serde call).map fun toolCall => .call toolCall.id).toList
  | some (.toolCallResult result) => [.output result.toolCallId]
  | _ => []

def Api.Request.exchanges (serde : SerdeJson) (self : Api.Request) : List Exchange :=
  self.history.flatMap (historyExchanges serde) ++ self.inputResults.map fun result => .output result.toolCallId

section Requests

open Api OpenAIChatMessage

theorem warpToolCallToOpenai_id {serde : SerdeJson} {call : ToolCall} {shown : OpenAIMessageToolCall}
    (translated : warpToolCallToOpenai serde call = some shown) : shown.id = call.toolCallId := by
  unfold warpToolCallToOpenai at translated
  obtain ⟨tool, -, rest⟩ := Option.bind_eq_some_iff.mp translated
  obtain ⟨arguments, -, last⟩ := Option.bind_eq_some_iff.mp rest
  cases last
  rfl

variable {serde : SerdeJson} {systemPrompt : String} {knowledgeContext : Option String} {request : Request}

structure Halved (messages : List OpenAIChatMessage) (exchanges : List Exchange) : Prop where
  identified : ∀ message ∈ messages, message.Identified
  halves : messages.flatMap OpenAIChatMessage.halves = exchanges

namespace Halved

variable {messages more : List OpenAIChatMessage} {exchanges others : List Exchange}

theorem nil : Halved [] [] := ⟨nofun, rfl⟩

theorem append (left : Halved messages exchanges) (right : Halved more others) :
    Halved (messages ++ more) (exchanges ++ others) := by
  constructor
  · intro message member
    rcases List.mem_append.mp member with member | member
    · exact left.identified message member
    · exact right.identified message member
  · rw [flatMap_append, left.halves, right.halves]

variable {message : OpenAIChatMessage}

theorem one (identified : message.Identified) : Halved [message] message.halves :=
  ⟨List.forall_mem_singleton.mpr identified, append_nil _⟩

theorem other (role : message.role ≠ "tool") : Halved [message] message.halves :=
  one fun isTool => absurd isTool role

theorem system (content : String) : Halved [.system content] [] :=
  other (show "system" ≠ "tool" by decide)

theorem user (content : String) : Halved [.user content] [] :=
  other (show "user" ≠ "tool" by decide)

theorem assistant (content : String) : Halved [.assistant content] [] :=
  other (show "assistant" ≠ "tool" by decide)

theorem assistantToolCall (toolCall : OpenAIMessageToolCall) :
    Halved [.assistantToolCall toolCall] [.call toolCall.id] :=
  other (show "assistant" ≠ "tool" by decide)

theorem tool (callId : String) {output : String} (some : output ≠ "") :
    Halved [.tool callId output] [.output callId] := by
  have halves : (OpenAIChatMessage.tool callId output).halves = [.output callId] := by
    unfold OpenAIChatMessage.halves
    rw [if_pos ⟨rfl, some⟩]
    rfl
  rw [← halves]
  exact one fun _ => rfl

theorem flatMap {α : Type} {items : List α} {show' : α → List OpenAIChatMessage} {parts : α → List Exchange}
    (each : ∀ item, Halved (show' item) (parts item)) : Halved (items.flatMap show') (items.flatMap parts) := by
  induction items with
  | nil => exact nil
  | cons item items ih => exact (each item).append ih

end Halved

theorem halved_historyMessage (message : Option HistoryMessage) :
    Halved (historyMessage serde message) (historyExchanges serde message) := by
  rcases message with - | message
  · exact .nil
  cases message with
  | userQuery query context => exact .user _
  | systemQuery type => exact .system _
  | agentOutput text =>
    show Halved (if text = "" then [] else [OpenAIChatMessage.assistant text]) []
    split
    · exact .nil
    · exact .assistant _
  | agentReasoning reasoning =>
    show Halved (if reasoning = "" then [] else [OpenAIChatMessage.assistant ("[reasoning]\n" ++ reasoning)]) []
    split
    · exact .nil
    · exact .assistant _
  | toolCall call =>
    show Halved ((warpToolCallToOpenai serde call).map OpenAIChatMessage.assistantToolCall).toList
      ((warpToolCallToOpenai serde call).map fun toolCall => Exchange.call toolCall.id).toList
    cases warpToolCallToOpenai serde call with
    | none => exact .nil
    | some toolCall => exact .assistantToolCall toolCall
  | toolCallResult result => exact .tool _ (formatToolCallResult_ne_empty result)
  | summarization type => exact .system _
  | other => exact .nil

theorem halved_userInputMessages (input : Option UserInput) : Halved (userInputMessages input)
    ((UserInput.result? input).toList.map fun result => .output result.toolCallId) := by
  rcases input with - | input
  · exact .nil
  cases input with
  | userQuery query => exact .user _
  | cliAgentUserQuery userQuery runningCommand => exact .user _
  | toolCallResult result => exact .tool _ (formatToolCallResult_ne_empty result)
  | messagesReceivedFromAgents messages => exact .system _
  | eventsFromAgents agentEvents => exact .system _
  | passiveSuggestionResult => exact .system _
  | other => exact .system _

theorem halved_inputMessages (type : InputType) : Halved (inputMessages request type)
    (type.results.map fun result => .output result.toolCallId) := by
  cases type with
  | userInputs inputs =>
    have halved := @Halved.flatMap _ inputs userInputMessages _ halved_userInputMessages
    have same : (inputs.flatMap fun input => (UserInput.result? input).toList.map fun result =>
        Exchange.output result.toolCallId) =
        (inputs.filterMap UserInput.result?).map fun result => .output result.toolCallId := by
      rw [filterMap_eq_flatMap_toList, map_flatMap]
    rw [same] at halved
    exact halved
  | toolCallResult result => exact .tool _ (formatToolCallResult_ne_empty result)
  | _ => exact .user _

theorem foldl_appendHistoryMessage (history : List (Option HistoryMessage)) (messages : List OpenAIChatMessage) :
    history.foldl (appendHistoryMessage serde) messages = messages ++ history.flatMap (historyMessage serde) := by
  induction history generalizing messages with
  | nil => exact (append_nil _).symm
  | cons message history ih => rw [foldl_cons, ih, appendHistoryMessage, flatMap_cons, append_assoc]

def Api.Request.inputMessages (self : Request) : List OpenAIChatMessage :=
  ((self.input.bind Input.type).map (Proxy.inputMessages self)).getD []

theorem halved_requestInputMessages :
    Halved request.inputMessages (request.inputResults.map fun result => .output result.toolCallId) := by
  unfold Api.Request.inputMessages Api.Request.inputResults
  cases request.input.bind Input.type with
  | none => exact .nil
  | some type => exact halved_inputMessages type

theorem buildChatRequest_eq : ∃ before after, Halved before [] ∧ Halved after [] ∧
    buildChatRequest serde systemPrompt knowledgeContext request =
      before ++ request.history.flatMap (historyMessage serde) ++ request.inputMessages ++ after := by
  have texts : ∀ text : Option String, Halved (text.map system).toList [] := by
    intro text
    cases text with
    | none => exact .nil
    | some text => exact .system text
  obtain ⟨before, isBefore⟩ : ∃ before, before = pushSystem (pushSystem [system systemPrompt]
    (((request.input.bind Input.context).map formatInputContext).filter fun text => text ≠ "")) knowledgeContext :=
      ⟨_, rfl⟩
  have halvedBefore : Halved before [] := by
    rw [isBefore]
    exact ((Halved.system systemPrompt).append (texts _)).append (texts _)
  have input : ∀ messages : List OpenAIChatMessage,
      (request.input.elim messages fun input => appendRequestInputMessages messages input request) =
        messages ++ request.inputMessages := by
    intro messages
    unfold Api.Request.inputMessages
    cases request.input with
    | none => exact (append_nil messages).symm
    | some input =>
      show appendRequestInputMessages messages input request =
        messages ++ (input.type.map (Proxy.inputMessages request)).getD []
      unfold appendRequestInputMessages
      cases input.type with
      | none => exact (append_nil messages).symm
      | some type => rfl
  have built : buildChatRequest serde systemPrompt knowledgeContext request =
      if (before ++ request.history.flatMap (historyMessage serde) ++ request.inputMessages).length = 1 then
        before ++ request.history.flatMap (historyMessage serde) ++ request.inputMessages ++ [user "Continue."]
      else before ++ request.history.flatMap (historyMessage serde) ++ request.inputMessages := by
    unfold buildChatRequest
    dsimp only
    rw [← isBefore, input, foldl_appendHistoryMessage]
    rfl
  rw [built]
  split
  · exact ⟨before, [user "Continue."], halvedBefore, .user "Continue.", rfl⟩
  · exact ⟨before, [], halvedBefore, .nil, (append_nil _).symm⟩

theorem halved_buildChatRequest :
    Halved (buildChatRequest serde systemPrompt knowledgeContext request) (request.exchanges serde) := by
  obtain ⟨before, after, halvedBefore, halvedAfter, built⟩ := @buildChatRequest_eq serde systemPrompt knowledgeContext request
  have history := @Halved.flatMap _ request.history (historyMessage serde) (historyExchanges serde)
    halved_historyMessage
  have halved := ((halvedBefore.append history).append (@halved_requestInputMessages request)).append halvedAfter
  rw [nil_append, append_nil] at halved
  rw [built]
  exact halved

def responsesInput (serde : SerdeJson) (systemPrompt : String) (knowledgeContext : Option String) (uuid : ℕ → String)
    (request : Request) : List Json :=
  responsesInputItemsFromChatMessages uuid (buildChatRequest serde systemPrompt knowledgeContext request)

theorem exchanges_responsesInput (uuid : ℕ → String) :
    exchanges (responsesInput serde systemPrompt knowledgeContext uuid request) =
      Exchange.retain (request.exchanges serde) := by
  have halved := @halved_buildChatRequest serde systemPrompt knowledgeContext request
  unfold responsesInput responsesInputItemsFromChatMessages
  rw [exchanges_retain, exchanges_messages halved.identified, halved.halves]

theorem mem_buildChatRequest {message : OpenAIChatMessage}
    (member : (∃ entry ∈ request.history, message ∈ historyMessage serde entry) ∨ message ∈ request.inputMessages) :
    message ∈ buildChatRequest serde systemPrompt knowledgeContext request := by
  obtain ⟨before, after, -, -, built⟩ := @buildChatRequest_eq serde systemPrompt knowledgeContext request
  rw [built]
  apply mem_append_left
  rcases member with ⟨entry, inHistory, inside⟩ | inInput
  · exact mem_append_left _ (mem_append_right _ (List.mem_flatMap.mpr ⟨entry, inHistory, inside⟩))
  · exact mem_append_right _ inInput

theorem mem_toolCalls {call : ToolCall} (member : call ∈ request.toolCalls) :
    some (HistoryMessage.toolCall call) ∈ request.history := by
  obtain ⟨entry, inHistory, isCall⟩ := List.mem_filterMap.mp member
  unfold HistoryMessage.toolCall? at isCall
  split at isCall
  · cases isCall
    exact inHistory
  · cases isCall

theorem mem_results {result : ToolCallResult} (member : result ∈ request.results) :
    tool result.toolCallId (formatToolCallResult result) ∈
      buildChatRequest serde systemPrompt knowledgeContext request := by
  apply mem_buildChatRequest
  rcases List.mem_append.mp member with inHistory | inInput
  · left
    obtain ⟨entry, inHistory, isResult⟩ := List.mem_filterMap.mp inHistory
    refine ⟨entry, inHistory, ?_⟩
    unfold HistoryMessage.result? at isResult
    split at isResult
    · cases isResult
      exact mem_singleton_self _
    · cases isResult
  · right
    unfold Api.Request.inputResults at inInput
    unfold Api.Request.inputMessages
    cases type : request.input.bind Input.type with
    | none =>
      rw [type] at inInput
      cases inInput
    | some type' =>
      rw [type] at inInput
      show _ ∈ Proxy.inputMessages request type'
      unfold InputType.results at inInput
      dsimp only [map_some, getD_some] at inInput
      split at inInput
      · obtain ⟨input, inside, isResult⟩ := List.mem_filterMap.mp inInput
        apply List.mem_flatMap.mpr ⟨input, inside, ?_⟩
        unfold UserInput.result? at isResult
        split at isResult
        · cases isResult
          exact mem_singleton_self _
        · cases isResult
      · rw [List.mem_singleton.mp inInput]
        exact mem_singleton_self _
      · cases inInput

theorem mem_retain {input : List Json} {item : Json} {half : Exchange} (member : item ∈ input)
    (isHalf : exchange item = some half) (answered : half.answered (exchanges input) = true) :
    item ∈ retainPairedFunctionIo input :=
  List.mem_filter.mpr ⟨member, (keeps_exchange isHalf).trans answered⟩

/-- In the input of a Responses request an id has a call just where it has an output. The input is well paired just
where every id that a translated call and a result of the request share is of one call and one result, the call first.
A translated call of the history with a result is kept, and so is its result. -/
theorem responsesInput_paired (serde : SerdeJson) (systemPrompt : String) (knowledgeContext : Option String)
    (uuid : ℕ → String) (request : Request) :
    (∀ id, .call id ∈ exchanges (responsesInput serde systemPrompt knowledgeContext uuid request) ↔
      .output id ∈ exchanges (responsesInput serde systemPrompt knowledgeContext uuid request)) ∧
    (Exchange.WellPaired (exchanges (responsesInput serde systemPrompt knowledgeContext uuid request)) ↔
      ∀ id, .call id ∈ request.exchanges serde → .output id ∈ request.exchanges serde →
        (request.exchanges serde).count (.call id) = 1 ∧ (request.exchanges serde).count (.output id) = 1 ∧
          [.call id, .output id].Sublist (request.exchanges serde)) ∧
    ∀ call ∈ request.toolCalls, ∀ shown, warpToolCallToOpenai serde call = some shown →
      ∀ result ∈ request.results, result.toolCallId = call.toolCallId →
        functionCallItem shown ∈ responsesInput serde systemPrompt knowledgeContext uuid request ∧
          functionCallOutputItem result.toolCallId (formatToolCallResult result) ∈
            responsesInput serde systemPrompt knowledgeContext uuid request := by
  rw [exchanges_responsesInput]
  refine ⟨fun id => Exchange.retain_both, Exchange.wellPaired_retain, ?_⟩
  intro call isCall shown translated result isResult same
  have shownId : shown.id = call.toolCallId := warpToolCallToOpenai_id translated
  have calls : assistantToolCall shown ∈ buildChatRequest serde systemPrompt knowledgeContext request := by
    apply mem_buildChatRequest
    refine Or.inl ⟨_, mem_toolCalls isCall, ?_⟩
    show _ ∈ ((warpToolCallToOpenai serde call).map assistantToolCall).toList
    rw [translated]
    exact mem_singleton_self _
  have callIn := @mem_items _ _ uuid _ calls fun uuid => mem_items_assistantToolCall shown
  have outputs := @mem_results serde systemPrompt knowledgeContext request result isResult
  have outputIn := @mem_items _ _ uuid _ outputs fun uuid => mem_items_tool (formatToolCallResult_ne_empty result)
  have callHalf := exchange_functionCallItem shown
  have outputHalf := exchange_functionCallOutputItem result.toolCallId (formatToolCallResult result)
  constructor
  · apply mem_retain callIn callHalf
    apply decide_eq_true
    rw [shownId, ← same]
    exact List.mem_filterMap.mpr ⟨_, outputIn, outputHalf⟩
  · apply mem_retain outputIn outputHalf
    apply decide_eq_true
    rw [same, ← shownId]
    exact List.mem_filterMap.mpr ⟨_, callIn, callHalf⟩

end Requests

section Samples

open Api

def ToolCall.sample : Api.ToolCall := ⟨"call_1", some (.runShellCommand ⟨"pwd", true, false, false, none⟩)⟩

def ToolCallResult.sample : Api.ToolCallResult := ⟨"call_1", some (.runShellCommand ⟨"pwd", 0, "/", none⟩)⟩

def Api.Request.sample : Api.Request where
  taskContext := some [⟨[some (.toolCall ToolCall.sample), some (.toolCallResult ToolCallResult.sample)]⟩]
  input := some ⟨none, some (.toolCallResult ToolCallResult.sample)⟩
  settings := none

def SerdeJson.samplePrinter : SerdeJson where
  fromStr := fun _ => .error "unused"
  toString := fun _ => "\x7b\"command\":\"pwd\",\"is_read_only\":true,\"is_risky\":false,\"uses_pager\":false,\"wait_until_complete\":true\x7d"
  typeError := fun _ => "unused"

theorem responsesInput_paired_sample :
    ∀ call ∈ Request.sample.toolCalls, ∀ shown, warpToolCallToOpenai .samplePrinter call = some shown →
      ∀ result ∈ Request.sample.results, result.toolCallId = call.toolCallId →
        functionCallItem shown ∈ responsesInput .samplePrinter "" none (fun _ => "") .sample ∧
          functionCallOutputItem result.toolCallId (formatToolCallResult result) ∈
            responsesInput .samplePrinter "" none (fun _ => "") .sample :=
  (responsesInput_paired .samplePrinter "" none (fun _ => "") .sample).2.2

def Api.Request.sampleOther : Api.Request where
  taskContext := some [⟨[some (.toolCall ⟨"call_1", some (.other "Subagent")⟩),
    some (.toolCallResult ⟨"call_1", some (.other "Subagent")⟩)]⟩]
  input := none
  settings := none

/-- A result that is there twice has two outputs for one call, and a call that is not translated is left out. -/
theorem responsesInput_unpaired :
    (¬ ∀ (serde : SerdeJson) (systemPrompt : String) (knowledgeContext : Option String) (uuid : ℕ → String)
        (request : Request),
      Exchange.WellPaired (exchanges (responsesInput serde systemPrompt knowledgeContext uuid request))) ∧
    ¬ ∀ (serde : SerdeJson) (systemPrompt : String) (knowledgeContext : Option String) (uuid : ℕ → String)
        (request : Request), ∀ call ∈ request.toolCalls, ∀ result ∈ request.results,
      result.toolCallId = call.toolCallId →
        .call call.toolCallId ∈ exchanges (responsesInput serde systemPrompt knowledgeContext uuid request) := by
  constructor
  · intro claimed
    have paired := claimed .samplePrinter "" none (fun _ => "") .sample
    rw [exchanges_responsesInput] at paired
    obtain ⟨-, once, -⟩ := paired "call_1" (by decide +kernel)
    exact absurd once (by decide +kernel)
  · intro claimed
    have kept := claimed .samplePrinter "" none (fun _ => "") .sampleOther ⟨"call_1", some (.other "Subagent")⟩
      (mem_singleton_self _) ⟨"call_1", some (.other "Subagent")⟩ (mem_singleton_self _) rfl
    rw [exchanges_responsesInput] at kept
    exact absurd kept (by decide +kernel)

end Samples

end Warp.Proxy
