import Warp.Lib.OrderedMap
import Warp.Proxy.ToolCall

namespace Warp.Proxy

open Json

def ToolCallAccumulator.known (call : ToolCallAccumulator) : Bool := call.name.isSome || call.arguments ≠ ""

structure ToolCallAccumulatorSet where
  calls : OrderedMap ℕ ToolCallAccumulator

structure OpenAIFunctionDelta where
  name : Option String
  arguments : Option String

def OpenAIFunctionDelta.read (json : Json) : Option OpenAIFunctionDelta := do
  let [name, arguments] ← members [["name"], ["arguments"]] json | none
  return {
    name := ← name.optional asStr
    arguments := ← arguments.optional asStr }

structure OpenAIToolCallDelta where
  index : ℕ
  id : Option String
  type : Option String
  function : Option OpenAIFunctionDelta

def OpenAIToolCallDelta.read (json : Json) : Option OpenAIToolCallDelta := do
  let [index, id, type, function] ← members [["index"], ["id"], ["type"], ["function"]] json | none
  return {
    index := ← index.orDefault 0 asU64
    id := ← id.optional asStr
    type := ← type.optional asStr
    function := ← function.optional OpenAIFunctionDelta.read }

def OpenAIFunctionCall.read (json : Json) : Option OpenAIFunctionCall := do
  let [name, arguments] ← members [["name"], ["arguments"]] json | none
  return {
    name := ← name.required asStr
    arguments := ← arguments.required asStr }

def OpenAIMessageToolCall.read (json : Json) : Option OpenAIMessageToolCall := do
  let [id, type, function] ← members [["id"], ["type"], ["function"]] json | none
  return {
    id := ← id.required asStr
    type := ← type.required asStr
    function := ← function.required OpenAIFunctionCall.read }

namespace ToolCallAccumulatorSet

def empty : ToolCallAccumulatorSet := ⟨.empty⟩

def entry (self : ToolCallAccumulatorSet) (index : ℕ) : ToolCallAccumulator := (self.calls.get index).getD {}

def modify (self : ToolCallAccumulatorSet) (index : ℕ) (write : ToolCallAccumulator → ToolCallAccumulator) :
    ToolCallAccumulatorSet :=
  ⟨self.calls.insert index (write (self.entry index))⟩

def applyDelta (self : ToolCallAccumulatorSet) (delta : OpenAIToolCallDelta) : ToolCallAccumulatorSet :=
  self.modify delta.index fun entry => {
    entry with
    id := delta.id <|> entry.id
    type := delta.type <|> entry.type
    name := (delta.function.bind OpenAIFunctionDelta.name) <|> entry.name
    arguments := entry.arguments ++ (delta.function.bind OpenAIFunctionDelta.arguments).getD "" }

def applyDeltas (self : ToolCallAccumulatorSet) (deltas : List OpenAIToolCallDelta) : ToolCallAccumulatorSet :=
  deltas.foldl applyDelta self

def applyFullCalls (self : ToolCallAccumulatorSet) (calls : List OpenAIMessageToolCall) : ToolCallAccumulatorSet :=
  calls.zipIdx.foldl (fun set (call, index) => ⟨set.calls.insert index {
    id := some call.id
    type := some call.type
    name := some call.function.name
    arguments := call.function.arguments }⟩) self

def findItem (self : ToolCallAccumulatorSet) (itemId : String) : Option ℕ :=
  (self.calls.entries.find? fun entry => entry.2.responseItemId = some itemId).map Prod.fst

def nextIndex (self : ToolCallAccumulatorSet) : ℕ := (self.calls.last.map fun entry => entry.1 + 1).getD 0

def responseCallMut (self : ToolCallAccumulatorSet) (outputIndex : Option ℕ) (itemId : Option String)
    (write : ToolCallAccumulator → ToolCallAccumulator) : ToolCallAccumulatorSet :=
  let named := fun entry : ToolCallAccumulator => { entry with responseItemId := itemId <|> entry.responseItemId }
  match outputIndex with
  | some index => self.modify index (write ∘ named)
  | none =>
    match itemId.bind self.findItem with
    | some index => self.modify index write
    | none => self.modify self.nextIndex (write ∘ named)

def applyResponseArgumentsDelta (self : ToolCallAccumulatorSet) (outputIndex : Option ℕ) (itemId : Option String)
    (delta : String) : ToolCallAccumulatorSet :=
  if delta = "" then self
  else self.responseCallMut outputIndex itemId fun call => { call with arguments := call.arguments ++ delta }

def applyResponseArgumentsDone (self : ToolCallAccumulatorSet) (outputIndex : Option ℕ) (itemId : Option String)
    (arguments : String) : ToolCallAccumulatorSet :=
  self.responseCallMut outputIndex itemId fun call => { call with arguments }

/-- What an item of the output says about its call. -/
def writeItem (item : Json) (entry : ToolCallAccumulator) : ToolCallAccumulator where
  id := (((item.get "call_id" <|> item.get "id").bind asStr).filter fun id => id ≠ "") <|> entry.id
  type := some "function"
  name := (item.get "name").bind asStr <|> entry.name
  arguments := ((item.get "arguments").bind asStr).getD entry.arguments
  responseItemId := (item.get "id").bind asStr <|> entry.responseItemId

def applyResponseOutputItem (self : ToolCallAccumulatorSet) (outputIndex : Option ℕ) (item : Json) :
    ToolCallAccumulatorSet :=
  if (item.get "type").bind asStr ≠ some "function_call" then self
  else self.responseCallMut outputIndex ((item.get "id").bind asStr) (writeItem item)

def applyResponsesOutput (self : ToolCallAccumulatorSet) (response : Json) : ToolCallAccumulatorSet :=
  match (response.get "output").bind asArray with
  | some output => output.zipIdx.foldl (fun set (item, index) => set.applyResponseOutputItem (some index) item) self
  | none => self

def yielded (self : ToolCallAccumulatorSet) : List ToolCallAccumulator :=
  (self.calls.entries.map Prod.snd).filter ToolCallAccumulator.known

def intoWarpClientOutputs (serde : SerdeJson) (uuid : ℕ → ℕ → String) (self : ToolCallAccumulatorSet) :
    List (Except String WarpClientOutput) :=
  self.yielded.mapIdx fun i call => call.intoWarpClientOutput serde (uuid i)

end ToolCallAccumulatorSet

def responseOutputIndex (event : Json) : Option ℕ := (event.get "output_index").bind asU64

def messageTexts (content : Json) : Option String :=
  if (content.get "type").bind asStr = some "output_text" ∨ (content.get "type").bind asStr = some "text" then
    ((content.get "text" <|> content.get "output_text").bind asStr).filter fun text => text ≠ ""
  else none

def itemTexts (item : Json) : List String :=
  if (item.get "type").bind asStr ≠ some "message" then []
  else (((item.get "content").bind asArray).getD []).filterMap messageTexts

def responsesOutputText (response : Json) : List String :=
  match ((response.get "output_text").bind asStr).filter fun text => text ≠ "" with
  | some text => [text]
  | none => (((response.get "output").bind asArray).getD []).flatMap itemTexts

def errorMessageFromValue (value : Json) : Option String :=
  (value.get "message" <|> (value.get "error").bind (get "message")).bind asStr

/-- The texts of an event, and the calls after it. -/
def applyResponsesEvent (event : Json) (toolCalls : ToolCallAccumulatorSet) (includeCompletedText : Bool) :
    Except String (List String × ToolCallAccumulatorSet) :=
  let itemId := (event.get "item_id").bind asStr
  let outputIndex := responseOutputIndex event
  match ((event.get "type").bind asStr).getD "" with
  | "response.output_text.delta" | "response.reasoning_summary_text.delta" =>
    .ok (((event.get "delta").bind asStr).toList, toolCalls)
  | "response.function_call_arguments.delta" =>
    .ok ([], toolCalls.applyResponseArgumentsDelta outputIndex itemId (((event.get "delta").bind asStr).getD ""))
  | "response.function_call_arguments.done" =>
    match (event.get "arguments").bind asStr with
    | some arguments => .ok ([], toolCalls.applyResponseArgumentsDone outputIndex itemId arguments)
    | none => .ok ([], toolCalls)
  | "response.output_item.added" | "response.output_item.done" =>
    match event.get "item" with
    | some item => .ok ([], toolCalls.applyResponseOutputItem outputIndex item)
    | none => .ok ([], toolCalls)
  | "response.completed" =>
    match event.get "response" with
    | some response =>
      .ok (if includeCompletedText then responsesOutputText response else [], toolCalls.applyResponsesOutput response)
    | none => .ok ([], toolCalls)
  | "response.failed" =>
    .error ((((event.get "response").bind (get "error")).bind errorMessageFromValue).getD
      "Responses backend reported failure")
  | "error" => .error ((errorMessageFromValue event).getD "Responses backend returned an error event")
  | _ => .ok ([], toolCalls)

def parseResponsesSseData (serde : SerdeJson) (data : String) (toolCalls : ToolCallAccumulatorSet)
    (includeCompletedText : Bool) : Except String (List String × ToolCallAccumulatorSet) :=
  (serde.fromStr data).bind fun event => applyResponsesEvent event toolCalls includeCompletedText

def parseResponsesFullResponse (serde : SerdeJson) (body : String) (toolCalls : ToolCallAccumulatorSet)
    (includeCompletedText : Bool) : Except String (List String × ToolCallAccumulatorSet) :=
  (serde.fromStr body).map fun response =>
    (if includeCompletedText then responsesOutputText response else [], toolCalls.applyResponsesOutput response)

structure OpenAIChatDelta where
  content : Option String
  reasoningContent : Option String
  toolCalls : Option (List OpenAIToolCallDelta)

namespace OpenAIChatDelta

def none : OpenAIChatDelta := ⟨.none, .none, .none⟩

def read (json : Json) : Option OpenAIChatDelta := do
  let [content, reasoningContent, toolCalls] ← members [["content"], ["reasoning_content"], ["tool_calls"]] json | .none
  return {
    content := ← content.optional asStr
    reasoningContent := ← reasoningContent.optional asStr
    toolCalls := ← toolCalls.orDefault .none (toOption (toVec OpenAIToolCallDelta.read)) }

end OpenAIChatDelta

def readChatChunkChoice (json : Json) : Option OpenAIChatDelta := do
  let [delta] ← members [["delta"]] json | none
  delta.orDefault .none OpenAIChatDelta.read

def readChatChunk (json : Json) : Option (List OpenAIChatDelta) := do
  let [choices] ← members [["choices"]] json | none
  choices.orDefault [] (toVec readChatChunkChoice)

structure OpenAIChatResponseMessage where
  content : Option String
  toolCalls : Option (List OpenAIMessageToolCall)

def OpenAIChatResponseMessage.read (json : Json) : Option OpenAIChatResponseMessage := do
  let [content, toolCalls] ← members [["content"], ["tool_calls"]] json | none
  return {
    content := ← content.optional asStr
    toolCalls := ← toolCalls.orDefault none (toOption (toVec OpenAIMessageToolCall.read)) }

def readChatResponseChoice (json : Json) : Option OpenAIChatResponseMessage := do
  let [message] ← members [["message"]] json | none
  message.required OpenAIChatResponseMessage.read

def readChatResponse (json : Json) : Option (List OpenAIChatResponseMessage) := do
  let [choices] ← members [["choices"]] json | none
  choices.orDefault [] (toVec readChatResponseChoice)

def formatReasoningDelta (reasoning : String) : String := if isBlank reasoning then "" else "\n\n" ++ reasoning

def parseChatSseData (serde : SerdeJson) (data : String) (toolCalls : ToolCallAccumulatorSet) :
    Except String (List String × ToolCallAccumulatorSet) :=
  (serde.read readChatChunk data).map fun deltas =>
    (deltas.flatMap fun delta => delta.content.toList ++ (delta.reasoningContent.map formatReasoningDelta).toList,
      deltas.foldl (fun set delta => set.applyDeltas (delta.toolCalls.getD [])) toolCalls)

def parseChatFullResponse (serde : SerdeJson) (body : String) (toolCalls : ToolCallAccumulatorSet) :
    Except String (List String × ToolCallAccumulatorSet) :=
  (serde.read readChatResponse body).map fun messages =>
    (messages.flatMap fun message => message.content.toList,
      messages.foldl (fun set message => set.applyFullCalls (message.toolCalls.getD [])) toolCalls)

inductive WireApi where
  | chatCompletions
  | responses
deriving DecidableEq

def WireApi.asStr : WireApi → String
  | chatCompletions => "chat_completions"
  | responses => "responses"

def parseBackendSseData (serde : SerdeJson) (wireApi : WireApi) (data : String) (toolCalls : ToolCallAccumulatorSet)
    (includeCompletedText : Bool) : Except String (List String × ToolCallAccumulatorSet) :=
  match wireApi with
  | .chatCompletions => parseChatSseData serde data toolCalls
  | .responses => parseResponsesSseData serde data toolCalls includeCompletedText

def parseBackendFullResponse (serde : SerdeJson) (wireApi : WireApi) (body : String) (toolCalls : ToolCallAccumulatorSet)
    (includeCompletedText : Bool) : Except String (List String × ToolCallAccumulatorSet) :=
  match wireApi with
  | .chatCompletions => parseChatFullResponse serde body toolCalls
  | .responses => parseResponsesFullResponse serde body toolCalls includeCompletedText

end Warp.Proxy
