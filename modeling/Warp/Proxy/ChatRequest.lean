import Warp.Proxy.ToolResult

namespace Warp.Proxy

namespace Api

structure Directory where
  pwd : String
  home : String

structure OperatingSystem where
  platform : String
  distribution : String

structure Shell where
  name : String
  version : String

structure Git where
  head : String
  branch : String

structure Codebase where
  name : String
  path : String

structure ExecutedShellCommand where
  commandId : String
  command : String
  exitCode : Int
  output : String

/-- The context of an input; of the selected texts, the files and the rules what the proxy reads. -/
structure InputContext where
  directory : Option Directory
  operatingSystem : Option OperatingSystem
  shell : Option Shell
  git : Option Git
  codebases : List Codebase
  executedShellCommands : List ExecutedShellCommand
  selectedText : List String
  files : List (Option FileContent)
  projectRules : List (List FileContent)

inductive SystemQuery where
  | autoCodeDiff (query : String)
  | resumeConversation
  | generatePassiveSuggestions
  | createNewProject (query : String)
  | cloneRepository (url : String)
  | summarizeConversation (prompt : String)
  | fetchReviewComments (repoPath : String)
  | other

inductive SummaryType where
  | conversationSummary (summary : String)
  | toolCallResultSummary

/-- A message of the history. The last kind stands for those that the proxy leaves out. -/
inductive HistoryMessage where
  | userQuery (query : String) (context : Option InputContext)
  | systemQuery (type : Option SystemQuery)
  | agentOutput (text : String)
  | agentReasoning (reasoning : String)
  | toolCall (call : ToolCall)
  | toolCallResult (result : ToolCallResult)
  | summarization (type : Option SummaryType)
  | other

structure RunningShellCommand where
  command : String
  snapshot : Option LongRunningShellCommandSnapshot

structure AgentMessage where
  senderAgentId : String
  addresses : String
  subject : String
  messageBody : String

inductive UserInput where
  | userQuery (query : String)
  | cliAgentUserQuery (userQuery : Option String) (runningCommand : Option RunningShellCommand)
  | toolCallResult (result : ToolCallResult)
  | messagesReceivedFromAgents (messages : List AgentMessage)
  | eventsFromAgents (agentEvents : ℕ)
  | passiveSuggestionResult
  | other

inductive InputType where
  | userInputs (inputs : List (Option UserInput))
  | queryWithCannedResponse (query : String)
  | autoCodeDiffQuery (query : String)
  | resumeConversation
  | initProjectRules
  | generatePassiveSuggestions
  | createNewProject (query : String)
  | cloneRepository (url : String)
  | codeReview
  | summarizeConversation (prompt : String)
  | createEnvironment (repoPaths : List String)
  | fetchReviewComments (repoPath : String)
  | startFromAmbientRunPrompt (ambientRunId : String)
  | invokeSkill (userQuery : Option String)
  | userQuery (query : String)
  | toolCallResult (result : ToolCallResult)

structure Input where
  context : Option InputContext
  type : Option InputType

inductive ToolType where
  | suggestPrompt
  | applyFileDiffs
  | other (type : Int)
deriving DecidableEq

structure Task where
  messages : List (Option HistoryMessage)

structure Request where
  taskContext : Option (List Task)
  input : Option Input
  settings : Option (List ToolType)

end Api

structure OpenAIChatMessage where
  role : String
  content : Option String
  toolCallId : Option String
  toolCalls : Option (List OpenAIMessageToolCall)

namespace OpenAIChatMessage

def system (content : String) : OpenAIChatMessage := ⟨"system", some content, none, none⟩

def user (content : String) : OpenAIChatMessage := ⟨"user", some content, none, none⟩

def assistant (content : String) : OpenAIChatMessage := ⟨"assistant", some content, none, none⟩

def assistantToolCall (toolCall : OpenAIMessageToolCall) : OpenAIChatMessage := ⟨"assistant", none, none, some [toolCall]⟩

def tool (toolCallId content : String) : OpenAIChatMessage := ⟨"tool", some content, some toolCallId, none⟩

end OpenAIChatMessage

section Texts

open Api

def trimString (s : String) : String := .ofList (Str.trim s.toList)

def formatInputContext (context : InputContext) : String :=
  let directory := match context.directory with
    | some directory =>
      (if directory.pwd = "" then [] else ["pwd: " ++ directory.pwd]) ++
        if directory.home = "" then [] else ["home: " ++ directory.home]
    | none => []
  let os := match context.operatingSystem with
    | some os => if os.platform = "" ∧ os.distribution = "" then [] else
        [trimString ("os: " ++ os.platform ++ " " ++ os.distribution)]
    | none => []
  let shell := match context.shell with
    | some shell => if shell.name = "" then [] else [trimString ("shell: " ++ shell.name ++ " " ++ shell.version)]
    | none => []
  let git := match context.git with
    | some git => if git.head = "" ∧ git.branch = "" then [] else
        ["git: head=" ++ git.head ++ " branch=" ++ git.branch]
    | none => []
  let codebases := context.codebases.map fun codebase => "codebase: " ++ codebase.name ++ " (" ++ codebase.path ++ ")"
  let commands := (context.executedShellCommands.rtake 5).map fun command =>
    "recent command [" ++ command.commandId ++ "]: " ++ command.command ++ "\nexit: " ++ toString command.exitCode ++
      "\n" ++ truncateString command.output 4000
  let selected := context.selectedText.map fun text => "selected text:\n" ++ truncateString text 2000
  let files := context.files.filterMap fun file => file.map fun content =>
    "file: " ++ content.filePath ++ "\n" ++ truncateString content.content 6000
  let rules := context.projectRules.flatMap fun files => files.map fun file =>
    "project rule " ++ file.filePath ++ ":\n" ++ truncateString file.content 4000
  "\n\n".intercalate
    (directory ++ os ++ shell ++ git ++ codebases ++ commands ++ selected ++ files ++ rules)

def formatUserQuery (query : String) (context : Option InputContext) : String :=
  let context := (context.map formatInputContext).getD ""
  if context = "" then query else query ++ "\n\nContext:\n" ++ context

def formatSystemQuery : Option SystemQuery → String
  | some (.autoCodeDiff query) => query
  | some .resumeConversation => "Resume the conversation."
  | some .generatePassiveSuggestions => "Generate passive suggestions."
  | some (.createNewProject query) => query
  | some (.cloneRepository url) => "Clone repository: " ++ url
  | some (.summarizeConversation prompt) => "Summarize conversation: " ++ prompt
  | some (.fetchReviewComments repoPath) => "Fetch review comments: " ++ repoPath
  | some .other | none => "System query."

def formatSummarization : Option SummaryType → String
  | some (.conversationSummary summary) => summary
  | some .toolCallResultSummary => "A prior tool call result was summarized."
  | none => ""

def formatRunningCommand (command : RunningShellCommand) : String :=
  let snapshot := (command.snapshot.map fun snapshot =>
    "command_id: " ++ snapshot.commandId ++ "\noutput:\n" ++ truncateString snapshot.output 4000).getD ""
  "command: " ++ command.command ++ "\n" ++ snapshot

def supportsTool (request : Request) (tool : ToolType) : Bool :=
  match request.settings with
  | some supportedTools => supportedTools.isEmpty || tool ∈ supportedTools
  | none => true

end Texts

section Messages

open Api OpenAIChatMessage

def historyMessage (serde : SerdeJson) : Option HistoryMessage → List OpenAIChatMessage
  | none => []
  | some (.userQuery query context) => [user (formatUserQuery query context)]
  | some (.systemQuery type) => [system (formatSystemQuery type)]
  | some (.agentOutput text) => if text = "" then [] else [assistant text]
  | some (.agentReasoning reasoning) => if reasoning = "" then [] else [assistant ("[reasoning]\n" ++ reasoning)]
  | some (.toolCall call) => ((warpToolCallToOpenai serde call).map assistantToolCall).toList
  | some (.toolCallResult result) => [tool result.toolCallId (formatToolCallResult result)]
  | some (.summarization type) => [system ("Conversation summary: " ++ formatSummarization type)]
  | some .other => []

def appendHistoryMessage (serde : SerdeJson) (messages : List OpenAIChatMessage) (message : Option HistoryMessage) :
    List OpenAIChatMessage := messages ++ historyMessage serde message

def userInputMessages : Option UserInput → List OpenAIChatMessage
  | none => []
  | some (.userQuery query) => [user (formatUserQuery query none)]
  | some (.cliAgentUserQuery userQuery runningCommand) =>
    [user (userQuery.getD "" ++ "\n\nActive command context:\n" ++ (runningCommand.map formatRunningCommand).getD "")]
  | some (.toolCallResult result) => [tool result.toolCallId (formatRequestToolCallResult result)]
  | some (.messagesReceivedFromAgents messages) =>
    [system ("Messages received from agents:\n" ++ "\n".intercalate (messages.map fun message =>
      "- from " ++ message.senderAgentId ++ " to " ++ message.addresses ++ ": " ++ message.subject ++ "\n" ++
        message.messageBody))]
  | some (.eventsFromAgents agentEvents) =>
    [system ("Received " ++ toString agentEvents ++ " agent lifecycle event(s).")]
  | some .passiveSuggestionResult => [system "The user accepted or rejected a passive suggestion."]
  | some .other => [system "Received a Warp input type that this BYOB proxy does not yet translate explicitly."]

def inputMessages (request : Request) : InputType → List OpenAIChatMessage
  | .userInputs inputs => inputs.flatMap userInputMessages
  | .queryWithCannedResponse query => [user query]
  | .autoCodeDiffQuery query => [user query]
  | .resumeConversation => [user "Resume the conversation."]
  | .initProjectRules =>
    [user ("Generate or update local project rules for this repository. " ++
      "Use apply_file_diffs to create or edit WARP.md/AGENTS.md rather than only describing the rule text.")]
  | .generatePassiveSuggestions =>
    [user ("Warp is asking for a passive suggestion based on recent terminal context. " ++
      "If no suggestion is genuinely useful, return no text and call no tools." ++
      (if supportsTool request .suggestPrompt then
        " If a follow-up Agent Mode prompt would help, call suggest_prompt exactly once. " ++
          "Prefer prompt_chip mode with a concise label." else "") ++
      (if supportsTool request .applyFileDiffs then
        " If a small code-edit banner would be clearly useful, call apply_file_diffs exactly once." else "") ++
      " Do not answer with explanatory prose for passive suggestions.")]
  | .createNewProject query => [user ("Create a new project: " ++ query)]
  | .cloneRepository url => [user ("Clone and set up this repository: " ++ url)]
  | .codeReview => [user "Review the provided code changes."]
  | .summarizeConversation prompt => [user ("Summarize this conversation. " ++ prompt)]
  | .createEnvironment repoPaths => [user ("Create a development environment for: " ++ ", ".intercalate repoPaths)]
  | .fetchReviewComments repoPath => [user ("Fetch review comments for " ++ repoPath ++ ".")]
  | .startFromAmbientRunPrompt ambientRunId => [user ("Start ambient run " ++ ambientRunId ++ ".")]
  | .invokeSkill userQuery => [user (userQuery.getD "Invoke the provided skill.")]
  | .userQuery query => [user query]
  | .toolCallResult result => [tool result.toolCallId (formatRequestToolCallResult result)]

def appendRequestInputMessages (messages : List OpenAIChatMessage) (input : Input) (request : Request) :
    List OpenAIChatMessage :=
  match input.type with
  | some type => messages ++ inputMessages request type
  | none => messages

def pushSystem (messages : List OpenAIChatMessage) (text : Option String) : List OpenAIChatMessage :=
  messages ++ (text.map system).toList

/-- The messages of the request to the backend; the text of the system prompt and what is known locally are given. -/
def buildChatRequest (serde : SerdeJson) (systemPrompt : String) (knowledgeContext : Option String)
    (request : Request) : List OpenAIChatMessage :=
  let contextSummary := ((request.input.bind Input.context).map formatInputContext).filter fun text => text ≠ ""
  let messages := pushSystem [system systemPrompt] contextSummary
  let messages := pushSystem messages knowledgeContext
  let messages := ((request.taskContext.getD []).flatMap Task.messages).foldl (appendHistoryMessage serde) messages
  let messages := request.input.elim messages fun input => appendRequestInputMessages messages input request
  if messages.length = 1 then messages ++ [user "Continue."] else messages

end Messages

section ResponsesInput

open Json

def responsesInputItemsFromChatMessage (uuid : String) (message : OpenAIChatMessage) : List Json :=
  let text := match message.content.filter fun content => content ≠ "" with
    | some content =>
      if message.role = "tool" then
        [object [("type", .string "function_call_output"),
          ("call_id", .string (message.toolCallId.getD ("tool_" ++ uuid))), ("output", .string content)]]
      else [object [("role", .string message.role), ("content", .string content)]]
    | none => []
  text ++ (message.toolCalls.getD []).map fun toolCall =>
    object [("type", .string "function_call"), ("call_id", .string toolCall.id),
      ("name", .string toolCall.function.name), ("arguments", .string toolCall.function.arguments)]

def valueCallId (value : Json) : Option String := (value.get "call_id").bind asStr

def itemType (item : Json) : Option String := (item.get "type").bind asStr

def callIds (type : String) (input : List Json) : List String :=
  (input.filter fun item => itemType item = some type).filterMap valueCallId

def retainPairedFunctionIo (input : List Json) : List Json :=
  let functionCalls := callIds "function_call" input
  let functionOutputs := callIds "function_call_output" input
  input.filter fun item =>
    if itemType item = some "function_call" then (valueCallId item).any fun callId => callId ∈ functionOutputs
    else if itemType item = some "function_call_output" then
      (valueCallId item).any fun callId => callId ∈ functionCalls
    else true

def responsesInputItemsFromChatMessages (uuid : ℕ → String) (messages : List OpenAIChatMessage) : List Json :=
  retainPairedFunctionIo (messages.mapIdx fun i message => responsesInputItemsFromChatMessage (uuid i) message).flatten

end ResponsesInput

end Warp.Proxy
