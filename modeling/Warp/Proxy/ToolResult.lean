import Warp.Proxy.MultiAgent

namespace Warp.Proxy

namespace Api

structure ShellCommandFinished where
  commandId : String
  exitCode : Int
  output : String

structure LongRunningShellCommandSnapshot where
  commandId : String
  isAltScreenActive : Bool
  isPreempted : Bool
  output : String

structure ShellCommandError where
  debug : String

inductive RunShellCommandResult.Result where
  | commandFinished (finished : ShellCommandFinished)
  | longRunningCommandSnapshot (snapshot : LongRunningShellCommandSnapshot)
  | permissionDenied

structure RunShellCommandResult where
  command : String
  exitCode : Int
  output : String
  result : Option RunShellCommandResult.Result

/-- What the other shell tools come to. -/
inductive ShellResult where
  | commandFinished (finished : ShellCommandFinished)
  | longRunningCommandSnapshot (snapshot : LongRunningShellCommandSnapshot)
  | error (error : ShellCommandError)

structure ReadShellCommandOutputResult where
  command : String
  result : Option ShellResult

structure FileContent where
  filePath : String
  content : String
  lineRange : Option FileContentLineRange

inductive AnyFileContent.Content where
  | textContent (file : FileContent)
  | binaryContent (filePath : String) (data : List UInt8)

inductive ReadFilesResult where
  | textFilesSuccess (files : List FileContent)
  | anyFilesSuccess (files : List (Option AnyFileContent.Content))
  | error (message : String)

structure GrepFileMatch where
  filePath : String
  matchedLines : List ℕ

structure FileGlobV2Success where
  matchedFiles : List String
  warnings : String

inductive Answer where
  | multipleChoice (selectedOptions : List String) (otherText : String)
  | skipped

structure AnswerItem where
  questionId : String
  answer : Option Answer

structure ApplyFileDiffsSuccess where
  updatedFilesV2 : List (Option FileContent)
  deletedFiles : List DeleteFile

/-- The results of the tools; one with an error has its message. The last one stands for those that the proxy never
mentions, with the text that they are debugged as. -/
inductive ToolResult where
  | runShellCommand (result : RunShellCommandResult)
  | readShellCommandOutput (result : ReadShellCommandOutputResult)
  | writeToLongRunningShellCommand (result : Option ShellResult)
  | transferShellCommandControlToUser (result : Option ShellResult)
  | readFiles (result : Option ReadFilesResult)
  | searchCodebase (result : Option (Except String (List FileContent)))
  | grep (result : Option (Except String (List GrepFileMatch)))
  | fileGlob (result : Option (Except String String))
  | fileGlobV2 (result : Option (Except String FileGlobV2Success))
  | readSkill (result : Option (Except String (Option FileContent)))
  | askUserQuestion (result : Option (Except String (List AnswerItem)))
  | applyFileDiffs (result : Option (Except String ApplyFileDiffsSuccess))
  | other (debug : String)

structure ToolCallResult where
  toolCallId : String
  result : Option ToolResult

end Api

def truncateString (text : String) (maxChars : ℕ) : String := .ofList (truncate text.toList maxChars)

section Format

open Api

def formatShellFinished (command : Option String) (finished : ShellCommandFinished) : String :=
  let command := ((command.filter fun command => command ≠ "").map fun command => "command: " ++ command ++ "\n").getD ""
  command ++ "command_id: " ++ finished.commandId ++ "\nexit_code: " ++ toString finished.exitCode ++ "\noutput:\n" ++
    truncateString finished.output 12000

def formatLongRunningSnapshot (snapshot : LongRunningShellCommandSnapshot) : String :=
  "command_id: " ++ snapshot.commandId ++ "\nstatus: still running\nalt_screen: " ++
    toString snapshot.isAltScreenActive ++ "\npreempted: " ++ toString snapshot.isPreempted ++ "\noutput:\n" ++
    truncateString snapshot.output 12000

def formatShellError (toolName : String) (error : ShellCommandError) : String :=
  toolName ++ " failed: " ++ error.debug

def formatRunShellResult (result : RunShellCommandResult) : String :=
  match result.result with
  | some (.commandFinished finished) =>
    "command: " ++ result.command ++ "\ncommand_id: " ++ finished.commandId ++ "\nexit_code: " ++
      toString finished.exitCode ++ "\noutput:\n" ++ truncateString finished.output 12000
  | some (.longRunningCommandSnapshot snapshot) =>
    "command: " ++ result.command ++ "\n" ++ formatLongRunningSnapshot snapshot
  | some .permissionDenied => "command denied by user or policy: " ++ result.command
  | none =>
    "command: " ++ result.command ++ "\nexit_code: " ++ toString result.exitCode ++ "\noutput:\n" ++
      truncateString result.output 12000

def formatReadShellOutputResult (result : ReadShellCommandOutputResult) : String :=
  match result.result with
  | some (.commandFinished finished) => formatShellFinished (some result.command) finished
  | some (.longRunningCommandSnapshot snapshot) =>
    "command: " ++ result.command ++ "\n" ++ formatLongRunningSnapshot snapshot
  | some (.error error) => formatShellError "read_shell_command_output" error
  | none => "command: " ++ result.command ++ "\nread_shell_command_output returned no result."

def formatShellResult (toolName : String) : Option ShellResult → String
  | some (.commandFinished finished) => formatShellFinished none finished
  | some (.longRunningCommandSnapshot snapshot) => formatLongRunningSnapshot snapshot
  | some (.error error) => formatShellError toolName error
  | none => toolName ++ " returned no result."

def formatWriteToLrcResult : Option ShellResult → String := formatShellResult "write_to_lrc"

def formatTransferShellControlResult : Option ShellResult → String := formatShellResult "transfer_shell_command_control"

def formatFileContent (file : FileContent) : String :=
  let range := (file.lineRange.map fun range =>
    " lines " ++ toString range.start ++ "-" ++ toString range.stop).getD ""
  "file: " ++ file.filePath ++ range ++ "\n" ++ truncateString file.content 12000

def formatFileContents (toolName : String) (files : List FileContent) : String :=
  let files := "\n\n".intercalate (files.map formatFileContent)
  if files = "" then toolName ++ " returned no files." else toolName ++ " result:\n" ++ files

def formatAnyFileContent : Option AnyFileContent.Content → String
  | some (.textContent file) => formatFileContent file
  | some (.binaryContent filePath data) => "binary file: " ++ filePath ++ "\nbytes: " ++ toString data.length
  | none => "empty file content"

def formatReadFilesResult : Option ReadFilesResult → String
  | some (.textFilesSuccess files) => formatFileContents "read_files" files
  | some (.anyFilesSuccess files) =>
    let files := "\n\n".intercalate (files.map formatAnyFileContent)
    if files = "" then "read_files returned no files." else "read_files result:\n" ++ files
  | some (.error message) => "read_files failed: " ++ message
  | none => "read_files returned no result."

def formatResult {α : Type} (toolName : String) (format : α → String) : Option (Except String α) → String
  | some (.ok value) => format value
  | some (.error message) => toolName ++ " failed: " ++ message
  | none => toolName ++ " returned no result."

def formatSearchCodebaseResult : Option (Except String (List FileContent)) → String :=
  formatResult "search_codebase" (formatFileContents "search_codebase")

def formatGrepResult : Option (Except String (List GrepFileMatch)) → String :=
  formatResult "grep" fun matchedFiles =>
    let files := "\n".intercalate (matchedFiles.map fun file =>
      file.filePath ++ ": lines [" ++ ", ".intercalate (file.matchedLines.map toString) ++ "]")
    if files = "" then "grep found no matches." else "grep matches:\n" ++ files

def formatFileGlobResult : Option (Except String String) → String :=
  formatResult "file_glob" fun matchedFiles => "file_glob matches:\n" ++ matchedFiles

def formatFileGlobV2Result : Option (Except String FileGlobV2Success) → String :=
  formatResult "file_glob_v2" fun success =>
    let files := "\n".intercalate success.matchedFiles
    let warnings := if isBlank success.warnings then "" else "\nwarnings:\n" ++ success.warnings
    if files = "" then "file_glob_v2 found no matches." ++ warnings
    else "file_glob_v2 matches:\n" ++ files ++ warnings

def formatReadSkillResult : Option (Except String (Option FileContent)) → String :=
  formatResult "read_skill" fun content =>
    (content.map fun content => "read_skill result:\n" ++ formatFileContent content).getD
      "read_skill returned success without content."

def formatAnswerItem (answer : AnswerItem) : String :=
  match answer.answer with
  | some (.multipleChoice selectedOptions otherText) =>
    let selected := ", ".intercalate selectedOptions
    if isBlank otherText then answer.questionId ++ ": " ++ selected
    else answer.questionId ++ ": " ++ selected ++ " other=" ++ otherText
  | some .skipped => answer.questionId ++ ": skipped"
  | none => answer.questionId ++ ": no answer"

def formatAskUserQuestionResult : Option (Except String (List AnswerItem)) → String :=
  formatResult "ask_user_question" fun answers =>
    let answers := "\n".intercalate (answers.map formatAnswerItem)
    if answers = "" then "ask_user_question completed with no answers."
    else "ask_user_question answers:\n" ++ answers

def formatApplyFileDiffsResult : Option (Except String ApplyFileDiffsSuccess) → String
  | some (.ok success) =>
    let updated := ", ".intercalate (success.updatedFilesV2.filterMap fun file => file.map FileContent.filePath)
    let deleted := ", ".intercalate (success.deletedFiles.map DeleteFile.filePath)
    "file edits applied. updated: [" ++ updated ++ "] deleted: [" ++ deleted ++ "]"
  | some (.error message) => "file edits failed: " ++ message
  | none => "file edit result was empty"

def formatToolCallResult (result : ToolCallResult) : String :=
  match result.result with
  | some (.runShellCommand result) => formatRunShellResult result
  | some (.readShellCommandOutput result) => formatReadShellOutputResult result
  | some (.writeToLongRunningShellCommand result) => formatWriteToLrcResult result
  | some (.transferShellCommandControlToUser result) => formatTransferShellControlResult result
  | some (.readFiles result) => formatReadFilesResult result
  | some (.searchCodebase result) => formatSearchCodebaseResult result
  | some (.grep result) => formatGrepResult result
  | some (.fileGlob result) => formatFileGlobResult result
  | some (.fileGlobV2 result) => formatFileGlobV2Result result
  | some (.readSkill result) => formatReadSkillResult result
  | some (.askUserQuestion result) => formatAskUserQuestionResult result
  | some (.applyFileDiffs result) => formatApplyFileDiffsResult result
  | some (.other debug) => "Tool result: " ++ debug
  | none => "Tool returned no result."

/-- The text of a result of the input: its type is another one in the source, with the same cases. -/
def formatRequestToolCallResult (result : ToolCallResult) : String := formatToolCallResult result

end Format

theorem formatShellFinished_ne_empty (command : Option String) (finished : Api.ShellCommandFinished) :
    formatShellFinished command finished ≠ "" := by
  unfold formatShellFinished
  simp [String.append_eq_empty_iff]

theorem formatLongRunningSnapshot_ne_empty (snapshot : Api.LongRunningShellCommandSnapshot) :
    formatLongRunningSnapshot snapshot ≠ "" := by
  unfold formatLongRunningSnapshot
  simp [String.append_eq_empty_iff]

theorem formatRunShellResult_ne_empty (result : Api.RunShellCommandResult) : formatRunShellResult result ≠ "" := by
  unfold formatRunShellResult
  split
  all_goals simp [String.append_eq_empty_iff]

theorem formatReadShellOutputResult_ne_empty (result : Api.ReadShellCommandOutputResult) :
    formatReadShellOutputResult result ≠ "" := by
  unfold formatReadShellOutputResult
  split
  · exact formatShellFinished_ne_empty _ _
  all_goals simp [formatShellError, String.append_eq_empty_iff]

theorem formatShellResult_ne_empty (toolName : String) (result : Option Api.ShellResult) :
    formatShellResult toolName result ≠ "" := by
  unfold formatShellResult
  split
  · exact formatShellFinished_ne_empty _ _
  · exact formatLongRunningSnapshot_ne_empty _
  all_goals simp [formatShellError, String.append_eq_empty_iff]

theorem formatFileContents_ne_empty (toolName : String) (files : List Api.FileContent) :
    formatFileContents toolName files ≠ "" := by
  unfold formatFileContents
  dsimp only
  split
  all_goals simp [String.append_eq_empty_iff]

theorem formatReadFilesResult_ne_empty (result : Option Api.ReadFilesResult) : formatReadFilesResult result ≠ "" := by
  unfold formatReadFilesResult
  split
  · exact formatFileContents_ne_empty _ _
  · dsimp only
    split
    all_goals simp [String.append_eq_empty_iff]
  all_goals simp [String.append_eq_empty_iff]

theorem formatResult_ne_empty {α : Type} (toolName : String) {format : α → String} (values : ∀ value, format value ≠ "")
    (result : Option (Except String α)) : formatResult toolName format result ≠ "" := by
  unfold formatResult
  split
  · exact values _
  all_goals simp [String.append_eq_empty_iff]

/-- A result is never formatted as nothing. -/
theorem formatToolCallResult_ne_empty (result : Api.ToolCallResult) : formatToolCallResult result ≠ "" := by
  unfold formatToolCallResult
  split
  · exact formatRunShellResult_ne_empty _
  · exact formatReadShellOutputResult_ne_empty _
  · exact formatShellResult_ne_empty _ _
  · exact formatShellResult_ne_empty _ _
  · exact formatReadFilesResult_ne_empty _
  · exact formatResult_ne_empty _ (formatFileContents_ne_empty _) _
  · apply formatResult_ne_empty
    intro matchedFiles
    dsimp only
    split
    all_goals simp [String.append_eq_empty_iff]
  · apply formatResult_ne_empty
    intro matchedFiles
    simp [String.append_eq_empty_iff]
  · apply formatResult_ne_empty
    intro success
    dsimp only
    split
    all_goals simp [String.append_eq_empty_iff]
  · apply formatResult_ne_empty
    intro content
    cases content
    all_goals simp [String.append_eq_empty_iff]
  · apply formatResult_ne_empty
    intro answers
    dsimp only
    split
    all_goals simp [String.append_eq_empty_iff]
  · unfold formatApplyFileDiffsResult
    split
    all_goals simp [String.append_eq_empty_iff]
  · simp [String.append_eq_empty_iff]
  · decide

end Warp.Proxy
