import Warp.Proxy.Accumulator
import Warp.Proxy.Sse

namespace Warp.Proxy

open Str

namespace Api

inductive MessageContent where
  | agentOutput (text : String)
  | toolCall (call : ToolCall)
deriving DecidableEq

structure Message where
  id : String
  taskId : String
  requestId : String
  message : MessageContent
deriving DecidableEq

inductive ClientAction where
  | createTask (id description : String)
  | addMessagesToTask (taskId : String) (messages : List Message)
  | appendToMessageContent (taskId : String) (message : Message) (mask : List String)
  | showSuggestions (suggestions : Suggestions)
deriving DecidableEq

inductive FinishReason where
  | done
  | internalError (message : String)
deriving DecidableEq

inductive ResponseEvent where
  | init (conversationId requestId runId : String)
  | clientActions (actions : List ClientAction)
  | finished (reason : FinishReason)
deriving DecidableEq

end Api

open Api (ResponseEvent)

structure WarpIds where
  conversationId : String
  requestId : String
  runId : String
  taskId : String

structure Uuids where
  message : String
  toolMessage : ℕ → String
  call : ℕ → ℕ → String

structure Config where
  openaiApiKey : Option String
  wireApi : WireApi

structure AppState where
  config : Config
  serde : SerdeJson
  uuids : Uuids
  codexAuthHint : String
  saveLocalKnowledge : SaveKnowledgeArgs → Except String String

structure BackendResponse where
  status : String
  isSuccess : Bool
  text : String
  bytesStream : List (Except String (List UInt8))

def agentOutputMessage (ids : WarpIds) (messageId text : String) : Api.Message where
  id := messageId
  taskId := ids.taskId
  requestId := ids.requestId
  message := .agentOutput text

def initEvent (ids : WarpIds) : ResponseEvent := .init ids.conversationId ids.requestId ids.runId

def createRootTaskEvent (ids : WarpIds) : ResponseEvent := .clientActions [.createTask ids.taskId "WarpOCA agent"]

def addAgentOutputEvent (ids : WarpIds) (messageId text : String) : ResponseEvent :=
  .clientActions [.addMessagesToTask ids.taskId [agentOutputMessage ids messageId text]]

def appendAgentOutputEvent (ids : WarpIds) (messageId text : String) : ResponseEvent :=
  .clientActions [.appendToMessageContent ids.taskId (agentOutputMessage ids messageId text) ["agent_output.text"]]

def addToolCallsEvent (uuids : Uuids) (ids : WarpIds) (toolCalls : List Api.ToolCall) : ResponseEvent :=
  .clientActions [.addMessagesToTask ids.taskId (toolCalls.mapIdx fun i call => {
    id := "msg_" ++ uuids.toolMessage i
    taskId := ids.taskId
    requestId := ids.requestId
    message := .toolCall call })]

def showSuggestionsEvent (suggestions : Api.Suggestions) : ResponseEvent := .clientActions [.showSuggestions suggestions]

def finishedEventDone : ResponseEvent := .finished .done

def finishedEventInternalError (message : String) : ResponseEvent := .finished (.internalError message)

def truncate (text : Str) (maxChars : ℕ) : Str :=
  if text.drop maxChars = [] then text.take maxChars else text.take maxChars ++ "\n...[truncated]".toList

structure StreamState where
  events : List ResponseEvent
  outputMessageId : Option String
  toolCalls : ToolCallAccumulatorSet
  parsedAnyBackendEvent : Bool
  seenBackendTextDelta : Bool
  decoder : SseDecoder

namespace StreamState

variable (app : AppState) (ids : WarpIds)

def start (events : List ResponseEvent) : StreamState := ⟨events, none, .empty, false, false, .empty⟩

def textDelta (self : StreamState) (content : String) : StreamState :=
  if content = "" then self
  else match self.outputMessageId with
    | some messageId => { self with events := self.events ++ [appendAgentOutputEvent ids messageId content] }
    | none => {
        self with
        events := self.events ++ [addAgentOutputEvent ids ("msg_" ++ app.uuids.message) content]
        outputMessageId := some ("msg_" ++ app.uuids.message) }

def emit (self : StreamState) (event : ResponseEvent) : StreamState := { self with events := self.events ++ [event] }

def content (self : StreamState) (content : String) : StreamState :=
  ({ self with seenBackendTextDelta := self.seenBackendTextDelta || content ≠ "" }).textDelta app ids content

def onData (self : StreamState) (data : Str) : StreamState :=
  let self := { self with parsedAnyBackendEvent := true }
  if trim data = "[DONE]".toList then self
  else
    match parseBackendSseData app.serde app.config.wireApi (.ofList data) self.toolCalls (!self.seenBackendTextDelta) with
    | .ok (textDeltas, toolCalls) => textDeltas.foldl (content app ids) { self with toolCalls }
    | .error err =>
      self.textDelta app ids
        ("Unable to parse backend SSE chunk as " ++ app.config.wireApi.asStr ++ " delta: " ++ err)

def onBytes (self : StreamState) (bytes : List UInt8) : StreamState :=
  let (events, decoder) := self.decoder.push (fromUtf8Lossy bytes)
  events.foldl (onData app ids) { self with decoder }

/-- Reads the body; the last events where the transport fails. -/
def readStream (self : StreamState) : List (Except String (List UInt8)) → Except (List ResponseEvent) StreamState
  | [] => .ok self
  | .ok bytes :: chunks => (self.onBytes app ids bytes).readStream chunks
  | .error err :: _ =>
    let message := "BYOB backend stream failed: " ++ err
    .error ((self.textDelta app ids message).emit (finishedEventInternalError message)).events

/-- Reads what is left as one response, where there was no event. -/
def fullResponse (self : StreamState) : StreamState :=
  let remaining := self.decoder.intoRemaining
  if self.parsedAnyBackendEvent || trim remaining = [] then self
  else
    match parseBackendFullResponse app.serde app.config.wireApi (.ofList remaining) self.toolCalls
        (!self.seenBackendTextDelta) with
    | .ok (textDeltas, toolCalls) => textDeltas.foldl (textDelta app ids) { self with toolCalls }
    | .error err =>
      self.textDelta app ids
        ("Backend did not return " ++ app.config.wireApi.asStr ++ " SSE or JSON response: " ++ err ++ ". Raw body: " ++
          .ofList (truncate remaining 1200))

end StreamState

structure Outputs where
  unsupported : List String := []
  warpToolCalls : List Api.ToolCall := []
  suggestions : Api.Suggestions := ⟨[], []⟩
  savedKnowledgeMessages : List String := []

def Outputs.add (app : AppState) (self : Outputs) : Except String WarpClientOutput → Outputs
  | .ok (.toolCall call) => { self with warpToolCalls := self.warpToolCalls ++ [call] }
  | .ok (.suggestions suggestions) => {
      self with
      suggestions := {
        rules := self.suggestions.rules ++ suggestions.rules
        workflows := self.suggestions.workflows ++ suggestions.workflows } }
  | .ok (.localKnowledge args) =>
    match app.saveLocalKnowledge args with
    | .ok path => { self with savedKnowledgeMessages := self.savedKnowledgeMessages ++ ["Saved local knowledge: " ++ path] }
    | .error err => { self with unsupported := self.unsupported ++ ["save_knowledge failed: " ++ err] }
  | .error err => { self with unsupported := self.unsupported ++ [err] }

namespace StreamState

variable (app : AppState) (ids : WarpIds)

def yieldOutputs (self : StreamState) : List ResponseEvent :=
  let outputs := (self.toolCalls.intoWarpClientOutputs app.serde app.uuids.call).foldl (Outputs.add app) {}
  let self := if outputs.unsupported = [] then self else
    self.textDelta app ids
      ("Unsupported or malformed backend tool call: " ++ "; ".intercalate outputs.unsupported)
  let self := outputs.savedKnowledgeMessages.foldl (textDelta app ids) self
  let self := if outputs.warpToolCalls = [] then self else
    self.emit (addToolCallsEvent app.uuids ids outputs.warpToolCalls)
  let self := if outputs.suggestions.rules = [] ∧ outputs.suggestions.workflows = [] then self else
    self.emit (showSuggestionsEvent outputs.suggestions)
  (self.emit finishedEventDone).events

end StreamState

open StreamState in
/-- The events that Warp is sent for a request, where `tasks` are the tasks of its context. -/
def proxyMultiAgent {Task : Type} (app : AppState) (ids : WarpIds) (tasks : Option (List Task)) (path : String)
    (backendResult : Except String BackendResponse) : List ResponseEvent :=
  let first := start ([initEvent ids] ++ if (tasks.getD []).isEmpty then [createRootTaskEvent ids] else [])
  let failed := fun message =>
    ((first.textDelta app ids message).emit (finishedEventInternalError message)).events
  if app.config.openaiApiKey = none then
    failed ("WarpOCA could not find Codex CLI authentication. Run `codex login`, confirm `" ++ app.codexAuthHint ++
      "` exists, then relaunch WarpOCA.")
  else
    match backendResult with
    | .error err => failed ("Failed to reach BYOB backend for " ++ path ++ ": " ++ err)
    | .ok response =>
      if !response.isSuccess then
        failed ("BYOB backend returned HTTP " ++ response.status ++ ": " ++
          .ofList (truncate response.text.toList 1200))
      else
        match first.readStream app ids response.bytesStream with
        | .error events => events
        | .ok state => (state.fullResponse app ids).yieldOutputs app ids

def looksLikeSse (body : Str) : Bool :=
  let trimmed := trimStart body
  "data:".toList <+: trimmed || "event:".toList <+: trimmed

/-- The texts of the events, and the calls and the flag after them. -/
def bodyEvents (serde : SerdeJson) (wireApi : WireApi) :
    List Str → ToolCallAccumulatorSet → Bool → Except String (List String × ToolCallAccumulatorSet × Bool)
  | [], toolCalls, seen => .ok ([], toolCalls, seen)
  | data :: events, toolCalls, seen =>
    if trim data = "[DONE]".toList then bodyEvents serde wireApi events toolCalls seen
    else do
      let (textDeltas, toolCalls) ← parseBackendSseData serde wireApi (.ofList data) toolCalls (!seen)
      let (texts, after) ← bodyEvents serde wireApi events toolCalls (seen || textDeltas.any fun delta => delta ≠ "")
      return (textDeltas ++ texts, after)

def backendTextFromBody (serde : SerdeJson) (wireApi : WireApi) (body : Str) : Except String String := do
  if looksLikeSse body then
    let (events, decoder) := SseDecoder.empty.push body
    let (text, toolCalls, seen) ← bodyEvents serde wireApi events .empty false
    let remaining := decoder.intoRemaining
    if trim remaining ≠ [] ∧ ¬ "data:".toList <+: trimStart remaining then
      let (more, _) ← parseBackendFullResponse serde wireApi (.ofList remaining) toolCalls (!seen)
      return String.join (text ++ more)
    else return String.join text
  else
    let (text, _) ← parseBackendFullResponse serde wireApi (.ofList body) .empty true
    return String.join text

end Warp.Proxy
