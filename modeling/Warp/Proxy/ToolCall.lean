import Warp.Lib.Json
import Warp.Lib.Utf8Lossy

namespace Warp.Proxy

universe u

structure SerdeJson where
  fromStr : String → Except String Json
  toString : Json → String
  typeError : Json → String

def SerdeJson.read {α : Type u} (serde : SerdeJson) (reader : Json → Option α) (text : String) : Except String α :=
  match serde.fromStr text with
  | .error error => .error error
  | .ok json =>
    match reader json with
    | some value => .ok value
    | none => .error (serde.typeError json)

def isBlank (s : String) : Bool := (Str.trim s.toList).isEmpty

def toAsciiLowercase (s : String) : String := .ofList (s.toList.map Char.toLower)

namespace Api

structure RunShellCommand where
  command : String
  isReadOnly : Bool
  usesPager : Bool
  isRisky : Bool
  waitUntilCompleteValue : Option Bool
deriving DecidableEq

inductive Delay where
  | duration (seconds : Int64) (nanos : Int32)
  | onCompletion
deriving DecidableEq

structure ReadShellCommandOutput where
  commandId : String
  delay : Option Delay
deriving DecidableEq

inductive Mode where
  | line
  | block
  | raw
deriving DecidableEq

structure WriteToLongRunningShellCommand where
  commandId : String
  input : List UInt8
  mode : Option (Option Mode)
deriving DecidableEq

structure TransferShellCommandControlToUser where
  reason : String
deriving DecidableEq

structure FileContentLineRange where
  start : UInt32
  stop : UInt32
deriving DecidableEq

structure ReadFile where
  name : String
  lineRanges : List FileContentLineRange
deriving DecidableEq

structure ReadFiles where
  files : List ReadFile
deriving DecidableEq

structure SearchCodebase where
  query : String
  pathFilters : List String
  codebasePath : String
deriving DecidableEq

structure Grep where
  queries : List String
  path : String
deriving DecidableEq

structure FileGlob where
  patterns : List String
  path : String
deriving DecidableEq

structure FileGlobV2 where
  patterns : List String
  searchDir : String
  maxMatches : Int32
  maxDepth : Int32
  minDepth : Int32
deriving DecidableEq

inductive SkillReference where
  | skillPath (path : String)
  | bundledSkillId (id : String)
deriving DecidableEq

structure ReadSkill where
  name : String
  skillReference : Option SkillReference
deriving DecidableEq

structure MultipleChoice where
  options : List String
  recommendedOptionIndex : Int32
  isMultiselect : Bool
  supportsOther : Bool
deriving DecidableEq

structure Question where
  questionId : String
  question : String
  questionType : Option MultipleChoice
deriving DecidableEq

structure AskUserQuestion where
  questions : List Question
deriving DecidableEq

structure FileDiff where
  filePath : String
  search : String
  replace : String
deriving DecidableEq

structure NewFile where
  filePath : String
  content : String
deriving DecidableEq

structure DeleteFile where
  filePath : String
deriving DecidableEq

structure Hunk where
  changeContext : List String
  preContext : String
  old : String
  new : String
  postContext : String
deriving DecidableEq

structure V4aFileUpdate where
  filePath : String
  moveTo : String
  hunks : List Hunk
deriving DecidableEq

structure ApplyFileDiffs where
  summary : String
  diffs : List FileDiff
  newFiles : List NewFile
  deletedFiles : List DeleteFile
  v4aUpdates : List V4aFileUpdate
deriving DecidableEq

inductive DisplayMode where
  | inlineQueryBanner (title description query : String)
  | promptChip (prompt label : String)
deriving DecidableEq

structure SuggestPrompt where
  isTriggerIrrelevant : Bool
  displayMode : Option DisplayMode
deriving DecidableEq

/-- The kinds of tool calls. The last one stands for those that the proxy never mentions. -/
inductive Tool where
  | runShellCommand (command : RunShellCommand)
  | readShellCommandOutput (command : ReadShellCommandOutput)
  | writeToLongRunningShellCommand (command : WriteToLongRunningShellCommand)
  | transferShellCommandControlToUser (transfer : TransferShellCommandControlToUser)
  | readFiles (readFiles : ReadFiles)
  | searchCodebase (search : SearchCodebase)
  | grep (grep : Grep)
  | fileGlob (glob : FileGlob)
  | fileGlobV2 (glob : FileGlobV2)
  | readSkill (readSkill : ReadSkill)
  | askUserQuestion (ask : AskUserQuestion)
  | applyFileDiffs (diffs : ApplyFileDiffs)
  | suggestPrompt (suggestion : SuggestPrompt)
  | other (kind : String)
deriving DecidableEq

structure ToolCall where
  toolCallId : String
  tool : Option Tool
deriving DecidableEq

structure SuggestedRule where
  name : String
  content : String
  loggingId : String
deriving DecidableEq

structure SuggestedWorkflow where
  name : String
deriving DecidableEq

structure Suggestions where
  rules : List SuggestedRule
  workflows : List SuggestedWorkflow
deriving DecidableEq

end Api

abbrev toStrings : Json → Option (List String) := Json.toVec Json.asStr

section Arguments

open Json

structure RunShellCommandArgs where
  command : String
  isReadOnly : Bool
  usesPager : Bool
  isRisky : Bool
  waitUntilComplete : Option Bool

def RunShellCommandArgs.read (json : Json) : Option RunShellCommandArgs := do
  let [command, isReadOnly, usesPager, isRisky, waitUntilComplete] ←
    members [["command"], ["is_read_only"], ["uses_pager"], ["is_risky"], ["wait_until_complete"]] json | none
  return {
    command := ← command.required asStr
    isReadOnly := ← isReadOnly.orDefault false toBool
    usesPager := ← usesPager.orDefault false toBool
    isRisky := ← isRisky.orDefault false toBool
    waitUntilComplete := ← waitUntilComplete.optional toBool }

structure ReadShellCommandOutputArgs where
  commandId : String
  delaySeconds : Option Int64
  waitUntilComplete : Bool

namespace ReadShellCommandOutputArgs

def read (json : Json) : Option ReadShellCommandOutputArgs := do
  let [commandId, delaySeconds, waitUntilComplete] ←
    members [["command_id"], ["delay_seconds"], ["wait_until_complete"]] json | none
  return {
    commandId := ← commandId.required asStr
    delaySeconds := ← delaySeconds.optional toInt64
    waitUntilComplete := ← waitUntilComplete.orDefault false toBool }

def toDelay (self : ReadShellCommandOutputArgs) : Option Api.Delay :=
  if self.waitUntilComplete then some .onCompletion
  else self.delaySeconds.map fun seconds => .duration (if seconds < 0 then 0 else seconds) 0

end ReadShellCommandOutputArgs

structure WriteToLongRunningShellCommandArgs where
  commandId : String
  input : String
  mode : Option String

namespace WriteToLongRunningShellCommandArgs

def read (json : Json) : Option WriteToLongRunningShellCommandArgs := do
  let [commandId, input, mode] ← members [["command_id"], ["input"], ["mode"]] json | none
  return {
    commandId := ← commandId.required asStr
    input := ← input.required asStr
    mode := ← mode.optional asStr }

def toMode (self : WriteToLongRunningShellCommandArgs) : Option Api.Mode :=
  let mode := toAsciiLowercase (self.mode.getD "raw")
  if mode = "line" then some .line
  else if mode = "block" then some .block
  else some .raw

end WriteToLongRunningShellCommandArgs

structure TransferShellCommandControlArgs where
  reason : String

def TransferShellCommandControlArgs.read (json : Json) : Option TransferShellCommandControlArgs := do
  let [reason] ← members [["reason"]] json | none
  return { reason := ← reason.required asStr }

structure LineRangeArg where
  start : UInt32
  stop : UInt32

def LineRangeArg.read (json : Json) : Option LineRangeArg := do
  let [start, stop] ← members [["start"], ["end"]] json | none
  return {
    start := ← start.required toUInt32
    stop := ← stop.required toUInt32 }

structure ReadFileArg where
  name : Option String
  lineRanges : List LineRangeArg

def ReadFileArg.read (json : Json) : Option ReadFileArg := do
  let [name, lineRanges] ← members [["name", "path", "file_path"], ["line_ranges"]] json | none
  return {
    name := ← name.optional asStr
    lineRanges := ← lineRanges.orDefault [] (toVec LineRangeArg.read) }

structure ReadFilesArgs where
  files : List ReadFileArg

def ReadFilesArgs.read (json : Json) : Option ReadFilesArgs := do
  let [files] ← members [["files"]] json | none
  return { files := ← files.required (toVec ReadFileArg.read) }

structure SearchCodebaseArgs where
  query : String
  pathFilters : List String
  codebasePath : Option String

def SearchCodebaseArgs.read (json : Json) : Option SearchCodebaseArgs := do
  let [query, pathFilters, codebasePath] ← members [["query"], ["path_filters"], ["codebase_path"]] json | none
  return {
    query := ← query.required asStr
    pathFilters := ← pathFilters.orDefault [] toStrings
    codebasePath := ← codebasePath.optional asStr }

structure GrepArgs where
  query : Option String
  queries : List String
  path : Option String

namespace GrepArgs

def read (json : Json) : Option GrepArgs := do
  let [query, queries, path] ← members [["query"], ["queries"], ["path"]] json | none
  return {
    query := ← query.optional asStr
    queries := ← queries.orDefault [] toStrings
    path := ← path.optional asStr }

def intoQueries (self : GrepArgs) : List String :=
  self.queries ++ (self.query.filter fun query => !isBlank query).toList

end GrepArgs

structure FileGlobArgs where
  patterns : List String
  path : Option String

def FileGlobArgs.read (json : Json) : Option FileGlobArgs := do
  let [patterns, path] ← members [["patterns"], ["path"]] json | none
  return {
    patterns := ← patterns.required toStrings
    path := ← path.optional asStr }

structure FileGlobV2Args where
  patterns : List String
  searchDir : Option String
  maxMatches : Option Int32
  maxDepth : Option Int32
  minDepth : Option Int32

def FileGlobV2Args.read (json : Json) : Option FileGlobV2Args := do
  let [patterns, searchDir, maxMatches, maxDepth, minDepth] ←
    members [["patterns"], ["search_dir"], ["max_matches"], ["max_depth"], ["min_depth"]] json | none
  return {
    patterns := ← patterns.required toStrings
    searchDir := ← searchDir.optional asStr
    maxMatches := ← maxMatches.optional toInt32
    maxDepth := ← maxDepth.optional toInt32
    minDepth := ← minDepth.optional toInt32 }

structure ReadSkillArgs where
  skillPath : Option String
  bundledSkillId : Option String
  name : Option String

namespace ReadSkillArgs

def read (json : Json) : Option ReadSkillArgs := do
  let [skillPath, bundledSkillId, name] ← members [["skill_path"], ["bundled_skill_id"], ["name"]] json | none
  return {
    skillPath := ← skillPath.optional asStr
    bundledSkillId := ← bundledSkillId.optional asStr
    name := ← name.optional asStr }

def skillReference (self : ReadSkillArgs) : Except String Api.SkillReference :=
  match self.skillPath.filter fun path => !isBlank path with
  | some path => .ok (.skillPath path)
  | none =>
    match self.bundledSkillId.filter fun id => !isBlank id with
    | some id => .ok (.bundledSkillId id)
    | none => .error "read_skill requires skill_path or bundled_skill_id"

end ReadSkillArgs

structure AskUserQuestionArg where
  questionId : Option String
  question : String
  options : List String
  recommendedOptionIndex : Option Int32
  isMultiselect : Bool
  supportsOther : Bool

namespace AskUserQuestionArg

def read (json : Json) : Option AskUserQuestionArg := do
  let [questionId, question, options, recommendedOptionIndex, isMultiselect, supportsOther] ←
    members [["question_id"], ["question"], ["options"], ["recommended_option_index"], ["is_multiselect"],
      ["supports_other"]] json | none
  return {
    questionId := ← questionId.optional asStr
    question := ← question.required asStr
    options := ← options.required toStrings
    recommendedOptionIndex := ← recommendedOptionIndex.optional toInt32
    isMultiselect := ← isMultiselect.orDefault false toBool
    supportsOther := ← supportsOther.orDefault false toBool }

/-- A question without an id gets a new one. -/
def into (uuid : String) (self : AskUserQuestionArg) : Api.Question where
  questionId := (self.questionId.filter fun id => !isBlank id).getD ("question_" ++ uuid)
  question := self.question
  questionType := some {
    options := self.options
    recommendedOptionIndex := self.recommendedOptionIndex.getD (-1)
    isMultiselect := self.isMultiselect
    supportsOther := self.supportsOther }

end AskUserQuestionArg

structure AskUserQuestionArgs where
  questions : List AskUserQuestionArg

def AskUserQuestionArgs.read (json : Json) : Option AskUserQuestionArgs := do
  let [questions] ← members [["questions"]] json | none
  return { questions := ← questions.required (toVec AskUserQuestionArg.read) }

structure FileDiffArgs where
  filePath : String
  search : String
  replace : String

def FileDiffArgs.read (json : Json) : Option FileDiffArgs := do
  let [filePath, search, replace] ← members [["file_path"], ["search"], ["replace"]] json | none
  return {
    filePath := ← filePath.required asStr
    search := ← search.required asStr
    replace := ← replace.required asStr }

structure NewFileArgs where
  filePath : String
  content : String

def NewFileArgs.read (json : Json) : Option NewFileArgs := do
  let [filePath, content] ← members [["file_path"], ["content"]] json | none
  return {
    filePath := ← filePath.required asStr
    content := ← content.required asStr }

structure DeletedFileArgs where
  filePath : String

def DeletedFileArgs.read (json : Json) : Option DeletedFileArgs := do
  let [filePath] ← members [["file_path"]] json | none
  return { filePath := ← filePath.required asStr }

structure V4aHunkArgs where
  changeContext : List String
  preContext : Option String
  old : Option String
  new : Option String
  postContext : Option String

def V4aHunkArgs.read (json : Json) : Option V4aHunkArgs := do
  let [changeContext, preContext, old, new, postContext] ←
    members [["change_context"], ["pre_context"], ["old"], ["new"], ["post_context"]] json | none
  return {
    changeContext := ← changeContext.orDefault [] toStrings
    preContext := ← preContext.optional asStr
    old := ← old.optional asStr
    new := ← new.optional asStr
    postContext := ← postContext.optional asStr }

structure V4aUpdateArgs where
  filePath : String
  moveTo : Option String
  hunks : List V4aHunkArgs

def V4aUpdateArgs.read (json : Json) : Option V4aUpdateArgs := do
  let [filePath, moveTo, hunks] ← members [["file_path"], ["move_to"], ["hunks"]] json | none
  return {
    filePath := ← filePath.required asStr
    moveTo := ← moveTo.optional asStr
    hunks := ← hunks.orDefault [] (toVec V4aHunkArgs.read) }

structure ApplyFileDiffsArgs where
  summary : Option String
  diffs : List FileDiffArgs
  newFiles : List NewFileArgs
  deletedFiles : List DeletedFileArgs
  v4aUpdates : List V4aUpdateArgs

def ApplyFileDiffsArgs.read (json : Json) : Option ApplyFileDiffsArgs := do
  let [summary, diffs, newFiles, deletedFiles, v4aUpdates] ←
    members [["summary"], ["diffs"], ["new_files"], ["deleted_files"], ["v4a_updates"]] json | none
  return {
    summary := ← summary.optional asStr
    diffs := ← diffs.orDefault [] (toVec FileDiffArgs.read)
    newFiles := ← newFiles.orDefault [] (toVec NewFileArgs.read)
    deletedFiles := ← deletedFiles.orDefault [] (toVec DeletedFileArgs.read)
    v4aUpdates := ← v4aUpdates.orDefault [] (toVec V4aUpdateArgs.read) }

structure SuggestPromptArgs where
  prompt : String
  label : Option String
  mode : Option String
  title : Option String
  description : Option String
  isTriggerIrrelevant : Bool

namespace SuggestPromptArgs

def read (json : Json) : Option SuggestPromptArgs := do
  let [prompt, label, mode, title, description, isTriggerIrrelevant] ←
    members [["prompt"], ["label"], ["mode"], ["title"], ["description"], ["is_trigger_irrelevant"]] json | none
  return {
    prompt := ← prompt.required asStr
    label := ← label.optional asStr
    mode := ← mode.optional asStr
    title := ← title.optional asStr
    description := ← description.optional asStr
    isTriggerIrrelevant := ← isTriggerIrrelevant.orDefault false toBool }

def intoApi (self : SuggestPromptArgs) : Api.SuggestPrompt :=
  let mode := toAsciiLowercase (self.mode.getD "prompt_chip")
  let wantsInlineBanner := mode = "inline_query_banner" || self.title.any (fun title => !isBlank title) ||
    self.description.any fun description => !isBlank description
  { isTriggerIrrelevant := self.isTriggerIrrelevant
    displayMode := some (
      if wantsInlineBanner then
        .inlineQueryBanner ((self.title <|> self.label).getD "Suggested prompt") (self.description.getD "") self.prompt
      else .promptChip self.prompt (self.label.getD "")) }

end SuggestPromptArgs

structure SaveKnowledgeArgs where
  title : String
  content : String
  tags : List String
  source : Option String

def SaveKnowledgeArgs.read (json : Json) : Option SaveKnowledgeArgs := do
  let [title, content, tags, source] ← members [["title"], ["content"], ["tags"], ["source"]] json | none
  return {
    title := ← title.required asStr
    content := ← content.required asStr
    tags := ← tags.orDefault [] toStrings
    source := ← source.optional asStr }

structure SuggestRuleArgs where
  name : String
  content : String
  loggingId : Option String

def SuggestRuleArgs.read (json : Json) : Option SuggestRuleArgs := do
  let [name, content, loggingId] ← members [["name"], ["content"], ["logging_id"]] json | none
  return {
    name := ← name.required asStr
    content := ← content.required asStr
    loggingId := ← loggingId.optional asStr }

end Arguments

inductive ToolName where
  | runShellCommand
  | readShellCommandOutput
  | writeToLrc
  | transferShellCommandControl
  | readFiles
  | searchCodebase
  | grep
  | fileGlob
  | fileGlobV2
  | readSkill
  | askUserQuestion
  | applyFileDiffs
  | suggestPrompt
  | saveKnowledge
  | suggestRule
  | unknown (name : String)
deriving DecidableEq

def ToolName.ofString : String → ToolName
  | "run_shell_command" => .runShellCommand
  | "read_shell_command_output" => .readShellCommandOutput
  | "write_to_lrc" | "write_to_long_running_shell_command" => .writeToLrc
  | "transfer_shell_command_control" | "transfer_shell_command_control_to_user" => .transferShellCommandControl
  | "read_files" => .readFiles
  | "search_codebase" => .searchCodebase
  | "grep" => .grep
  | "file_glob" => .fileGlob
  | "file_glob_v2" => .fileGlobV2
  | "read_skill" => .readSkill
  | "ask_user_question" => .askUserQuestion
  | "apply_file_diffs" => .applyFileDiffs
  | "suggest_prompt" => .suggestPrompt
  | "save_knowledge" => .saveKnowledge
  | "suggest_rule" => .suggestRule
  | name => .unknown name

def RunShellCommandArgs.intoApi (args : RunShellCommandArgs) : Api.RunShellCommand where
  command := args.command
  isReadOnly := args.isReadOnly
  usesPager := args.usesPager
  isRisky := args.isRisky
  waitUntilCompleteValue := some (args.waitUntilComplete.getD true)

def ReadShellCommandOutputArgs.intoApi (args : ReadShellCommandOutputArgs) : Api.ReadShellCommandOutput where
  delay := args.toDelay
  commandId := args.commandId

def WriteToLongRunningShellCommandArgs.intoApi (args : WriteToLongRunningShellCommandArgs) :
    Api.WriteToLongRunningShellCommand where
  mode := some args.toMode
  input := Str.bytes args.input.toList
  commandId := args.commandId

def TransferShellCommandControlArgs.intoApi (args : TransferShellCommandControlArgs) :
    Api.TransferShellCommandControlToUser where
  reason := args.reason

def LineRangeArg.into (range : LineRangeArg) : Api.FileContentLineRange where
  start := range.start
  stop := range.stop

def ReadFileArg.intoApi (file : ReadFileArg) : Api.ReadFile where
  name := file.name.getD ""
  lineRanges := file.lineRanges.map LineRangeArg.into

def ReadFilesArgs.intoApi (args : ReadFilesArgs) : Api.ReadFiles where
  files := args.files.map ReadFileArg.intoApi

def SearchCodebaseArgs.intoApi (args : SearchCodebaseArgs) : Api.SearchCodebase where
  query := args.query
  pathFilters := args.pathFilters
  codebasePath := args.codebasePath.getD ""

def GrepArgs.intoApi (args : GrepArgs) : Api.Grep where
  queries := args.intoQueries
  path := args.path.getD ""

def FileGlobArgs.intoApi (args : FileGlobArgs) : Api.FileGlob where
  patterns := args.patterns
  path := args.path.getD ""

def FileGlobV2Args.intoApi (args : FileGlobV2Args) : Api.FileGlobV2 where
  patterns := args.patterns
  searchDir := args.searchDir.getD ""
  maxMatches := args.maxMatches.getD 0
  maxDepth := args.maxDepth.getD 0
  minDepth := args.minDepth.getD 0

def ReadSkillArgs.intoApi (args : ReadSkillArgs) : Except String Api.ReadSkill :=
  args.skillReference.map fun reference => ⟨args.name.getD "", some reference⟩

/-- The first new id is for the call itself, the others are for its questions. -/
def AskUserQuestionArgs.intoApi (uuid : ℕ → String) (args : AskUserQuestionArgs) : Api.AskUserQuestion where
  questions := args.questions.mapIdx fun i question => question.into (uuid (i + 1))

def FileDiffArgs.intoApi (diff : FileDiffArgs) : Api.FileDiff where
  filePath := diff.filePath
  search := diff.search
  replace := diff.replace

def NewFileArgs.intoApi (file : NewFileArgs) : Api.NewFile where
  filePath := file.filePath
  content := file.content

def DeletedFileArgs.intoApi (file : DeletedFileArgs) : Api.DeleteFile where
  filePath := file.filePath

def V4aHunkArgs.intoApi (hunk : V4aHunkArgs) : Api.Hunk where
  changeContext := hunk.changeContext
  preContext := hunk.preContext.getD ""
  old := hunk.old.getD ""
  new := hunk.new.getD ""
  postContext := hunk.postContext.getD ""

def V4aUpdateArgs.intoApi (update : V4aUpdateArgs) : Api.V4aFileUpdate where
  filePath := update.filePath
  moveTo := update.moveTo.getD ""
  hunks := update.hunks.map V4aHunkArgs.intoApi

def ApplyFileDiffsArgs.intoApi (args : ApplyFileDiffsArgs) : Api.ApplyFileDiffs where
  summary := args.summary.getD "Apply file edits"
  diffs := args.diffs.map FileDiffArgs.intoApi
  newFiles := args.newFiles.map NewFileArgs.intoApi
  deletedFiles := args.deletedFiles.map DeletedFileArgs.intoApi
  v4aUpdates := args.v4aUpdates.map V4aUpdateArgs.intoApi

def SuggestRuleArgs.intoApi (uuid : String) (args : SuggestRuleArgs) : Api.SuggestedRule where
  name := args.name
  content := args.content
  loggingId := (args.loggingId.filter fun id => !isBlank id).getD ("byob-rule-" ++ uuid)

structure ToolCallAccumulator where
  id : Option String := none
  type : Option String := none
  name : Option String := none
  arguments : String := ""
  responseItemId : Option String := none
deriving DecidableEq

inductive WarpClientOutput where
  | toolCall (call : Api.ToolCall)
  | suggestions (suggestions : Api.Suggestions)
  | localKnowledge (args : SaveKnowledgeArgs)

inductive Requested where
  | tool (tool : Api.Tool)
  | suggestions (suggestions : Api.Suggestions)
  | localKnowledge (args : SaveKnowledgeArgs)

def Requested.output (toolCallId : String) : Requested → WarpClientOutput
  | .tool made => .toolCall ⟨toolCallId, some made⟩
  | .suggestions made => .suggestions made
  | .localKnowledge args => .localKnowledge args

def ToolName.intoTool (serde : SerdeJson) (uuid : ℕ → String) (arguments : String) :
    ToolName → Except String Requested
  | runShellCommand => (serde.read RunShellCommandArgs.read arguments).map fun args =>
      .tool (.runShellCommand args.intoApi)
  | readShellCommandOutput => (serde.read ReadShellCommandOutputArgs.read arguments).map fun args =>
      .tool (.readShellCommandOutput args.intoApi)
  | writeToLrc => (serde.read WriteToLongRunningShellCommandArgs.read arguments).map fun args =>
      .tool (.writeToLongRunningShellCommand args.intoApi)
  | transferShellCommandControl => (serde.read TransferShellCommandControlArgs.read arguments).map fun args =>
      .tool (.transferShellCommandControlToUser args.intoApi)
  | readFiles => (serde.read ReadFilesArgs.read arguments).map fun args => .tool (.readFiles args.intoApi)
  | searchCodebase => (serde.read SearchCodebaseArgs.read arguments).map fun args => .tool (.searchCodebase args.intoApi)
  | grep => (serde.read GrepArgs.read arguments).map fun args => .tool (.grep args.intoApi)
  | fileGlob => (serde.read FileGlobArgs.read arguments).map fun args => .tool (.fileGlob args.intoApi)
  | fileGlobV2 => (serde.read FileGlobV2Args.read arguments).map fun args => .tool (.fileGlobV2 args.intoApi)
  | readSkill => (serde.read ReadSkillArgs.read arguments).bind fun args =>
      args.intoApi.map fun skill => .tool (.readSkill skill)
  | askUserQuestion => (serde.read AskUserQuestionArgs.read arguments).map fun args =>
      .tool (.askUserQuestion (args.intoApi uuid))
  | applyFileDiffs => (serde.read ApplyFileDiffsArgs.read arguments).map fun args => .tool (.applyFileDiffs args.intoApi)
  | suggestPrompt => (serde.read SuggestPromptArgs.read arguments).map fun args => .tool (.suggestPrompt args.intoApi)
  | saveKnowledge => (serde.read SaveKnowledgeArgs.read arguments).map fun args => .localKnowledge args
  | suggestRule => (serde.read SuggestRuleArgs.read arguments).map fun args =>
      .suggestions ⟨[args.intoApi (uuid 1)], []⟩
  | unknown other => .error ("unknown tool `" ++ other ++ "`")

def ToolCallAccumulator.intoWarpClientOutput (serde : SerdeJson) (uuid : ℕ → String) (self : ToolCallAccumulator) :
    Except String WarpClientOutput :=
  match self.name with
  | none => .error "missing function name"
  | some name =>
    ((ToolName.ofString name).intoTool serde uuid self.arguments).map
      (Requested.output ((self.id.filter fun id => id ≠ "").getD ("tool_" ++ uuid 0)))

section ToBackend

open Json

structure OpenAIFunctionCall where
  name : String
  arguments : String
deriving DecidableEq

structure OpenAIMessageToolCall where
  id : String
  type : String
  function : OpenAIFunctionCall
deriving DecidableEq

def readShellDelaySeconds (command : Api.ReadShellCommandOutput) : Option Int64 :=
  match command.delay with
  | some (.duration seconds _) => some seconds
  | _ => none

def readShellWaitsUntilComplete (command : Api.ReadShellCommandOutput) : Bool := command.delay = some .onCompletion

def writeToLrcModeName (command : Api.WriteToLongRunningShellCommand) : String :=
  match command.mode.bind id with
  | some .line => "line"
  | some .block => "block"
  | _ => "raw"

def ofStrings (values : List String) : Json := ofVec Json.string values

def Api.FileContentLineRange.json (range : Api.FileContentLineRange) : Json :=
  object [("end", ofUInt32 range.stop), ("start", ofUInt32 range.start)]

def Api.ReadFile.json (file : Api.ReadFile) : Json :=
  object [("line_ranges", ofVec Api.FileContentLineRange.json file.lineRanges), ("path", string file.name)]

def Api.Question.json (question : Api.Question) : Json :=
  object [
    ("is_multiselect", bool ((question.questionType.map MultipleChoice.isMultiselect).getD false)),
    ("options", ofStrings ((question.questionType.map MultipleChoice.options).getD [])),
    ("question", string question.question),
    ("question_id", string question.questionId),
    ("recommended_option_index", ofInt32 ((question.questionType.map MultipleChoice.recommendedOptionIndex).getD (-1))),
    ("supports_other", bool ((question.questionType.map MultipleChoice.supportsOther).getD false))]

def Api.FileDiff.json (diff : Api.FileDiff) : Json :=
  object [("file_path", string diff.filePath), ("replace", string diff.replace), ("search", string diff.search)]

def Api.NewFile.json (file : Api.NewFile) : Json :=
  object [("content", string file.content), ("file_path", string file.filePath)]

def Api.DeleteFile.json (file : Api.DeleteFile) : Json := object [("file_path", string file.filePath)]

def Api.ReadSkill.referenceIds (skill : Api.ReadSkill) : String × String :=
  match skill.skillReference with
  | some (.skillPath path) => (path, "")
  | some (.bundledSkillId id) => ("", id)
  | none => ("", "")

/-- The name and the arguments of a tool call, with the fields of an object in the order of their names. -/
def Api.Tool.arguments : Api.Tool → Option (String × Json)
  | .runShellCommand command => some ("run_shell_command", object [
      ("command", string command.command),
      ("is_read_only", bool command.isReadOnly),
      ("is_risky", bool command.isRisky),
      ("uses_pager", bool command.usesPager),
      ("wait_until_complete", bool (command.waitUntilCompleteValue.getD true))])
  | .readShellCommandOutput command => some ("read_shell_command_output", object [
      ("command_id", string command.commandId),
      ("delay_seconds", ofOption ofInt64 (readShellDelaySeconds command)),
      ("wait_until_complete", bool (readShellWaitsUntilComplete command))])
  | .writeToLongRunningShellCommand command => some ("write_to_lrc", object [
      ("command_id", string command.commandId),
      ("input", string (.ofList (Str.fromUtf8Lossy command.input))),
      ("mode", string (writeToLrcModeName command))])
  | .transferShellCommandControlToUser transfer => some ("transfer_shell_command_control", object [
      ("reason", string transfer.reason)])
  | .readFiles read => some ("read_files", object [("files", ofVec Api.ReadFile.json read.files)])
  | .searchCodebase search => some ("search_codebase", object [
      ("codebase_path", string search.codebasePath),
      ("path_filters", ofStrings search.pathFilters),
      ("query", string search.query)])
  | .grep search => some ("grep", object [("path", string search.path), ("queries", ofStrings search.queries)])
  | .fileGlob glob => some ("file_glob", object [("path", string glob.path), ("patterns", ofStrings glob.patterns)])
  | .fileGlobV2 glob => some ("file_glob_v2", object [
      ("max_depth", ofInt32 glob.maxDepth),
      ("max_matches", ofInt32 glob.maxMatches),
      ("min_depth", ofInt32 glob.minDepth),
      ("patterns", ofStrings glob.patterns),
      ("search_dir", string glob.searchDir)])
  | .readSkill skill => some ("read_skill", object [
      ("bundled_skill_id", string skill.referenceIds.2),
      ("name", string skill.name),
      ("skill_path", string skill.referenceIds.1)])
  | .askUserQuestion ask => some ("ask_user_question", object [("questions", ofVec Api.Question.json ask.questions)])
  | .applyFileDiffs diffs => some ("apply_file_diffs", object [
      ("deleted_files", ofVec Api.DeleteFile.json diffs.deletedFiles),
      ("diffs", ofVec Api.FileDiff.json diffs.diffs),
      ("new_files", ofVec Api.NewFile.json diffs.newFiles),
      ("summary", string diffs.summary)])
  | .suggestPrompt _ | .other _ => none

def warpToolCallToOpenai (serde : SerdeJson) (toolCall : Api.ToolCall) : Option OpenAIMessageToolCall := do
  let (name, arguments) ← (← toolCall.tool).arguments
  return ⟨toolCall.toolCallId, "function", name, serde.toString arguments⟩

end ToBackend

end Warp.Proxy
