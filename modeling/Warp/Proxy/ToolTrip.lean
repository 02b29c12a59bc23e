import Mathlib.Data.List.TakeWhile
import Warp.Proxy.ToolCall

namespace Warp.Proxy

open Json List Option

theorem isBlank_iff {s : String} : isBlank s = s.toList.all Str.isWhitespace := by
  unfold isBlank Str.trim Str.trimStart
  rw [Bool.eq_iff_iff, List.isEmpty_iff, reverse_eq_nil_iff, dropWhile_eq_nil_iff, List.all_eq_true]
  constructor
  · intro blank c member
    by_cases white : Str.isWhitespace c = true
    · exact white
    · exfalso
      have split := @List.takeWhile_append_dropWhile _ Str.isWhitespace s.toList
      rw [← split, mem_append] at member
      rcases member with member | member
      · exact white (mem_takeWhile_imp member)
      · exact white (blank c (List.mem_reverse.mpr member))
  · intro blank c member
    exact blank c (dropWhile_subset _ (List.mem_reverse.mp member))

theorem isBlank_question (uuid : String) : isBlank ("question_" ++ uuid) = false := by
  rw [isBlank_iff, String.toList_append, all_append]
  have letters : ("question_".toList).all Str.isWhitespace = false := by decide
  rw [letters, Bool.false_and]

@[simp] theorem toStrings_ofStrings (values : List String) : toStrings (ofStrings values) = some values := by
  have read := @toVec_ofVec _ _ Json.string asStr (fun value => value) values fun _ _ => rfl
  rw [List.map_id_fun', Option.map_id] at read
  exact read

theorem LineRangeArg.read_again (range : Api.FileContentLineRange) : (read range.json).map into = some range := by
  have found : members [["start"], ["end"]] range.json =
      some [.present (ofUInt32 range.start), .present (ofUInt32 range.stop)] := rfl
  unfold read
  rw [found]
  show ((toUInt32 (ofUInt32 range.start)).bind fun start => (toUInt32 (ofUInt32 range.stop)).bind fun stop =>
    some (LineRangeArg.mk start stop)).map into = some range
  rw [toUInt32_ofUInt32, toUInt32_ofUInt32]
  rfl

theorem ReadFileArg.read_again (file : Api.ReadFile) : (read file.json).map intoApi = some file := by
  obtain ⟨ranges, readRanges, intoRanges⟩ := Option.map_eq_some_iff.mp
    (@toVec_ofVec _ _ Api.FileContentLineRange.json LineRangeArg.read LineRangeArg.into file.lineRanges
      fun range _ => LineRangeArg.read_again range)
  show ((toVec LineRangeArg.read (ofVec Api.FileContentLineRange.json file.lineRanges)).bind fun ranges =>
    some (ReadFileArg.mk (some file.name) ranges)).map intoApi = some file
  rw [readRanges]
  show some (Api.ReadFile.mk file.name (ranges.map LineRangeArg.into)) = some file
  rw [intoRanges]

theorem FileDiffArgs.read_again (diff : Api.FileDiff) : (read diff.json).map intoApi = some diff := rfl

theorem NewFileArgs.read_again (file : Api.NewFile) : (read file.json).map intoApi = some file := rfl

theorem DeletedFileArgs.read_again (file : Api.DeleteFile) : (read file.json).map intoApi = some file := rfl

theorem AskUserQuestionArg.read_again (arg : AskUserQuestionArg) (uuid other : String) :
    (read (arg.into uuid).json).map (into other) = some (arg.into uuid) := by
  show ((toStrings (ofStrings arg.options)).bind fun options =>
    (((toInt32 (ofInt32 (arg.recommendedOptionIndex.getD (-1)))).map some).bind fun index =>
      some (AskUserQuestionArg.mk (some (arg.into uuid).questionId) arg.question options index arg.isMultiselect
        arg.supportsOther))).map (into other) = some (arg.into uuid)
  rw [toStrings_ofStrings, toInt32_ofInt32]
  have named : isBlank (arg.into uuid).questionId = false := by
    show isBlank ((arg.questionId.filter fun id => !isBlank id).getD ("question_" ++ uuid)) = false
    cases kept : arg.questionId.filter fun id => !isBlank id with
    | none => exact isBlank_question uuid
    | some id => exact Bool.not_eq_true' _ ▸ (Option.filter_eq_some_iff.mp kept).2
  have kept : (some (arg.into uuid).questionId).filter (fun id => !isBlank id) = some (arg.into uuid).questionId := by
    rw [filter_some, named]
    rfl
  show some (Api.Question.mk (((some (arg.into uuid).questionId).filter fun id => !isBlank id).getD
    ("question_" ++ other)) arg.question _) = some (arg.into uuid)
  rw [kept]
  rfl

section Tools

def Api.Tool.remembered : Api.Tool → Api.Tool
  | .applyFileDiffs diffs => .applyFileDiffs { diffs with v4aUpdates := [] }
  | tool => tool

/-- The arguments that the history shows lead to the same tool again. -/
def Api.Tool.ReadAgain (tool : Api.Tool) : Prop :=
  ∃ name json, tool.arguments = some (name, json) ∧
    ∀ (serde : SerdeJson) (arguments : String), serde.fromStr arguments = .ok json →
      ∀ uuid, (ToolName.ofString name).intoTool serde uuid arguments = .ok (.tool tool.remembered)

variable {serde : SerdeJson}

theorem SerdeJson.read_eq {α : Type} {reader : Json → Option α} {text : String} {json : Json} {args : α}
    (parsed : serde.fromStr text = .ok json) (isRead : reader json = some args) :
    serde.read reader text = .ok args := by
  unfold SerdeJson.read
  rw [parsed]
  dsimp only
  rw [isRead]

theorem Api.Tool.readAgain {α β : Type} {tool : Api.Tool} {name : String} {json : Json} {value : β}
    (reader : Json → Option α) (into : (ℕ → String) → α → β) (f : β → Api.Tool)
    (written : tool.arguments = some (name, json)) (again : ∀ uuid, (reader json).map (into uuid) = some value)
    (runs : ∀ serde uuid arguments, (ToolName.ofString name).intoTool serde uuid arguments =
      (serde.read reader arguments).map fun args => .tool (f (into uuid args)))
    (same : f value = tool.remembered) : tool.ReadAgain := by
  refine ⟨name, json, written, ?_⟩
  intro serde arguments parsed uuid
  obtain ⟨args, isRead, isValue⟩ := Option.map_eq_some_iff.mp (again uuid)
  rw [runs, SerdeJson.read_eq parsed isRead, ← same, ← isValue]
  rfl

theorem RunShellCommandArgs.readAgain (args : RunShellCommandArgs) :
    Api.Tool.ReadAgain (.runShellCommand args.intoApi) :=
  Api.Tool.readAgain read (fun _ => intoApi) .runShellCommand rfl (fun _ => rfl) (fun _ _ _ => rfl) rfl

theorem ReadShellCommandOutputArgs.toDelay_again (args : ReadShellCommandOutputArgs) :
    (ReadShellCommandOutputArgs.mk args.commandId (readShellDelaySeconds args.intoApi)
      (readShellWaitsUntilComplete args.intoApi)).intoApi = args.intoApi := by
  obtain ⟨commandId, delaySeconds, waitUntilComplete⟩ := args
  cases waitUntilComplete with
  | true => rfl
  | false =>
    cases delaySeconds with
    | none => rfl
    | some seconds =>
      by_cases negative : seconds < 0
      · have zero : (if seconds < 0 then 0 else seconds) = 0 := if_pos negative
        show Api.ReadShellCommandOutput.mk commandId (some (.duration (if (if seconds < 0 then 0 else seconds) < 0 then 0
          else (if seconds < 0 then 0 else seconds)) 0)) = ⟨commandId, some (.duration (if seconds < 0 then 0
            else seconds) 0)⟩
        rw [zero]
        rfl
      · have same : (if seconds < 0 then 0 else seconds) = seconds := if_neg negative
        show Api.ReadShellCommandOutput.mk commandId (some (.duration (if (if seconds < 0 then 0 else seconds) < 0 then 0
          else (if seconds < 0 then 0 else seconds)) 0)) = ⟨commandId, some (.duration (if seconds < 0 then 0
            else seconds) 0)⟩
        rw [same, same]

theorem ReadShellCommandOutputArgs.readAgain (args : ReadShellCommandOutputArgs) :
    Api.Tool.ReadAgain (.readShellCommandOutput args.intoApi) := by
  apply Api.Tool.readAgain read (fun _ => intoApi) .readShellCommandOutput rfl _ (fun _ _ _ => rfl) rfl
  intro uuid
  have delay : Member.optional toInt64 (.present (ofOption ofInt64 (readShellDelaySeconds args.intoApi))) =
      some (readShellDelaySeconds args.intoApi) := by
    cases readShellDelaySeconds args.intoApi with
    | none => rfl
    | some seconds => exact congrArg (Option.map some) (toInt64_ofInt64 seconds)
  show ((Member.optional toInt64 (.present (ofOption ofInt64 (readShellDelaySeconds args.intoApi)))).bind fun delay =>
    some (ReadShellCommandOutputArgs.mk args.commandId delay (readShellWaitsUntilComplete args.intoApi))).map intoApi = _
  rw [delay]
  exact congrArg some args.toDelay_again

theorem WriteToLongRunningShellCommandArgs.readAgain (args : WriteToLongRunningShellCommandArgs) :
    Api.Tool.ReadAgain (.writeToLongRunningShellCommand args.intoApi) := by
  apply Api.Tool.readAgain read (fun _ => intoApi) .writeToLongRunningShellCommand rfl _ (fun _ _ _ => rfl) rfl
  intro uuid
  have input : String.ofList (Str.fromUtf8Lossy args.intoApi.input) = args.input := by
    show String.ofList (Str.fromUtf8Lossy (Str.bytes args.input.toList)) = args.input
    rw [Str.fromUtf8Lossy_bytes, String.ofList_toList]
  have mode : ∀ commandId input, (WriteToLongRunningShellCommandArgs.mk commandId input
      (some (writeToLrcModeName args.intoApi))).toMode = args.toMode := by
    intro commandId input
    have line : toAsciiLowercase "line" = "line" := by decide
    have block : ¬ toAsciiLowercase "block" = "line" ∧ toAsciiLowercase "block" = "block" := by decide
    have raw : ¬ toAsciiLowercase "raw" = "line" ∧ ¬ toAsciiLowercase "raw" = "block" := by decide
    have modes : args.toMode = some .line ∨ args.toMode = some .block ∨ args.toMode = some .raw := by
      unfold toMode
      dsimp only
      split_ifs
      all_goals simp
    unfold writeToLrcModeName intoApi
    rcases modes with mode | mode | mode
    · rw [mode]
      exact if_pos line
    · rw [mode]
      exact (if_neg block.1).trans (if_pos block.2)
    · rw [mode]
      exact (if_neg raw.1).trans (if_neg raw.2)
  show some (WriteToLongRunningShellCommandArgs.mk args.commandId (.ofList (Str.fromUtf8Lossy args.intoApi.input))
    (some (writeToLrcModeName args.intoApi))).intoApi = some args.intoApi
  rw [input]
  unfold intoApi at mode ⊢
  rw [mode]

theorem TransferShellCommandControlArgs.readAgain (args : TransferShellCommandControlArgs) :
    Api.Tool.ReadAgain (.transferShellCommandControlToUser args.intoApi) :=
  Api.Tool.readAgain read (fun _ => intoApi) .transferShellCommandControlToUser rfl (fun _ => rfl) (fun _ _ _ => rfl) rfl

theorem ReadFilesArgs.readAgain (args : ReadFilesArgs) : Api.Tool.ReadAgain (.readFiles args.intoApi) := by
  apply Api.Tool.readAgain read (fun _ => intoApi) .readFiles rfl _ (fun _ _ _ => rfl) rfl
  intro uuid
  obtain ⟨files, readFiles, intoFiles⟩ := Option.map_eq_some_iff.mp
    (@toVec_ofVec _ _ Api.ReadFile.json ReadFileArg.read ReadFileArg.intoApi args.intoApi.files
      fun file _ => ReadFileArg.read_again file)
  show ((toVec ReadFileArg.read (ofVec Api.ReadFile.json args.intoApi.files)).bind fun files =>
    some (ReadFilesArgs.mk files)).map intoApi = some args.intoApi
  rw [readFiles]
  show some (Api.ReadFiles.mk (files.map ReadFileArg.intoApi)) = some args.intoApi
  rw [intoFiles]

theorem SearchCodebaseArgs.readAgain (args : SearchCodebaseArgs) :
    Api.Tool.ReadAgain (.searchCodebase args.intoApi) := by
  apply Api.Tool.readAgain read (fun _ => intoApi) .searchCodebase rfl _ (fun _ _ _ => rfl) rfl
  intro uuid
  show ((toStrings (ofStrings args.pathFilters)).bind fun pathFilters =>
    some (SearchCodebaseArgs.mk args.query pathFilters (some (args.codebasePath.getD "")))).map intoApi = some args.intoApi
  rw [toStrings_ofStrings]
  rfl

theorem GrepArgs.readAgain (args : GrepArgs) : Api.Tool.ReadAgain (.grep args.intoApi) := by
  apply Api.Tool.readAgain read (fun _ => intoApi) .grep rfl _ (fun _ _ _ => rfl) rfl
  intro uuid
  show ((toStrings (ofStrings args.intoQueries)).bind fun queries =>
    some (GrepArgs.mk none queries (some (args.path.getD "")))).map intoApi = some args.intoApi
  rw [toStrings_ofStrings]
  show some (Api.Grep.mk (args.intoQueries ++ []) (args.path.getD "")) = some args.intoApi
  rw [append_nil]
  rfl

theorem FileGlobArgs.readAgain (args : FileGlobArgs) : Api.Tool.ReadAgain (.fileGlob args.intoApi) := by
  apply Api.Tool.readAgain read (fun _ => intoApi) .fileGlob rfl _ (fun _ _ _ => rfl) rfl
  intro uuid
  show ((toStrings (ofStrings args.patterns)).bind fun patterns =>
    some (FileGlobArgs.mk patterns (some (args.path.getD "")))).map intoApi = some args.intoApi
  rw [toStrings_ofStrings]
  rfl

theorem FileGlobV2Args.readAgain (args : FileGlobV2Args) : Api.Tool.ReadAgain (.fileGlobV2 args.intoApi) := by
  apply Api.Tool.readAgain read (fun _ => intoApi) .fileGlobV2 rfl _ (fun _ _ _ => rfl) rfl
  intro uuid
  show ((toStrings (ofStrings args.patterns)).bind fun patterns =>
    ((toInt32 (ofInt32 args.intoApi.maxMatches)).map some).bind fun maxMatches =>
      ((toInt32 (ofInt32 args.intoApi.maxDepth)).map some).bind fun maxDepth =>
        ((toInt32 (ofInt32 args.intoApi.minDepth)).map some).bind fun minDepth =>
          some (FileGlobV2Args.mk patterns (some (args.searchDir.getD "")) maxMatches maxDepth minDepth)).map intoApi =
    some args.intoApi
  rw [toStrings_ofStrings, toInt32_ofInt32, toInt32_ofInt32, toInt32_ofInt32]
  rfl

theorem ReadSkillArgs.intoApi_again {args : ReadSkillArgs} {skill : Api.ReadSkill} (isSkill : args.intoApi = .ok skill) :
    (ReadSkillArgs.mk (some skill.referenceIds.1) (some skill.referenceIds.2) (some skill.name)).intoApi = .ok skill := by
  have blank : (some "").filter (fun id => !isBlank id) = none := by decide
  have kept : ∀ {given : Option String} {id}, given.filter (fun id => !isBlank id) = some id →
      (some id).filter (fun id => !isBlank id) = some id := by
    intro given id found
    rw [filter_some, if_pos (Option.filter_eq_some_iff.mp found).2]
  unfold intoApi skillReference at isSkill
  cases path : args.skillPath.filter fun path => !isBlank path with
  | some value =>
    rw [path] at isSkill
    cases isSkill
    unfold intoApi skillReference
    dsimp only [Api.ReadSkill.referenceIds]
    rw [kept path]
    rfl
  | none =>
    rw [path] at isSkill
    cases bundled : args.bundledSkillId.filter fun id => !isBlank id with
    | some value =>
      rw [bundled] at isSkill
      cases isSkill
      unfold intoApi skillReference
      dsimp only [Api.ReadSkill.referenceIds]
      rw [blank, kept bundled]
      rfl
    | none =>
      rw [bundled] at isSkill
      cases isSkill

theorem ReadSkillArgs.readAgain {args : ReadSkillArgs} {skill : Api.ReadSkill} (isSkill : args.intoApi = .ok skill) :
    Api.Tool.ReadAgain (.readSkill skill) := by
  refine ⟨_, _, rfl, ?_⟩
  intro serde arguments parsed uuid
  have isRead : read (object [("bundled_skill_id", .string skill.referenceIds.2), ("name", .string skill.name),
      ("skill_path", .string skill.referenceIds.1)]) =
      some ⟨some skill.referenceIds.1, some skill.referenceIds.2, some skill.name⟩ := rfl
  show (serde.read ReadSkillArgs.read arguments).bind (fun args => args.intoApi.map fun skill =>
    Requested.tool (.readSkill skill)) = _
  rw [SerdeJson.read_eq parsed isRead]
  show (ReadSkillArgs.intoApi _).map _ = _
  rw [ReadSkillArgs.intoApi_again isSkill]
  rfl

theorem AskUserQuestionArg.read_each (uuid other : ℕ → String) (args : List AskUserQuestionArg) (shift : ℕ) :
    ∃ again, toVec read (ofVec Api.Question.json (args.mapIdx fun i arg => arg.into (uuid (i + shift)))) = some again ∧
      again.mapIdx (fun i arg => arg.into (other (i + shift))) = args.mapIdx fun i arg => arg.into (uuid (i + shift)) := by
  induction args generalizing shift with
  | nil => exact ⟨[], rfl, rfl⟩
  | cons arg args ih =>
    obtain ⟨rest, readRest, intoRest⟩ := ih (shift + 1)
    obtain ⟨first, readFirst, intoFirst⟩ := Option.map_eq_some_iff.mp
      (arg.read_again (uuid (0 + shift)) (other (0 + shift)))
    have shifted : ∀ (ids : ℕ → String) (arguments : List AskUserQuestionArg),
        arguments.mapIdx (fun i arg => arg.into (ids (i + 1 + shift))) =
          arguments.mapIdx fun i arg => arg.into (ids (i + (shift + 1))) := by
      intro ids arguments
      congr 1
      funext i arg
      rw [Nat.add_assoc, Nat.add_comm 1 shift]
    refine ⟨first :: rest, ?_, ?_⟩
    · rw [mapIdx_cons, shifted]
      show ((Api.Question.json _ :: (List.mapIdx _ args).map Api.Question.json)).mapM read = _
      rw [mapM_cons, readFirst]
      show Option.bind (toVec read (ofVec Api.Question.json _)) _ = _
      rw [readRest]
      rfl
    · rw [mapIdx_cons, mapIdx_cons, shifted, shifted, intoRest, intoFirst]

theorem AskUserQuestionArgs.readAgain (args : AskUserQuestionArgs) (uuid : ℕ → String) :
    Api.Tool.ReadAgain (.askUserQuestion (args.intoApi uuid)) := by
  apply Api.Tool.readAgain read intoApi .askUserQuestion rfl _ (fun _ _ _ => rfl) rfl
  intro other
  obtain ⟨questions, isRead, intoQuestions⟩ := AskUserQuestionArg.read_each uuid other args.questions 1
  show ((toVec AskUserQuestionArg.read (ofVec Api.Question.json (args.intoApi uuid).questions)).bind fun questions =>
    some (AskUserQuestionArgs.mk questions)).map (intoApi other) = some (args.intoApi uuid)
  unfold intoApi
  rw [isRead]
  exact congrArg (fun questions => some (Api.AskUserQuestion.mk questions)) intoQuestions

theorem ApplyFileDiffsArgs.readAgain (args : ApplyFileDiffsArgs) : Api.Tool.ReadAgain (.applyFileDiffs args.intoApi) := by
  apply @Api.Tool.readAgain _ _ _ _ _ { args.intoApi with v4aUpdates := [] } read (fun _ => intoApi) .applyFileDiffs rfl _
    (fun _ _ _ => rfl) rfl
  intro uuid
  obtain ⟨diffs, readDiffs, intoDiffs⟩ := Option.map_eq_some_iff.mp
    (@toVec_ofVec _ _ Api.FileDiff.json FileDiffArgs.read FileDiffArgs.intoApi args.intoApi.diffs
      fun diff _ => FileDiffArgs.read_again diff)
  obtain ⟨newFiles, readNew, intoNew⟩ := Option.map_eq_some_iff.mp
    (@toVec_ofVec _ _ Api.NewFile.json NewFileArgs.read NewFileArgs.intoApi args.intoApi.newFiles
      fun file _ => NewFileArgs.read_again file)
  obtain ⟨deletedFiles, readDeleted, intoDeleted⟩ := Option.map_eq_some_iff.mp
    (@toVec_ofVec _ _ Api.DeleteFile.json DeletedFileArgs.read DeletedFileArgs.intoApi args.intoApi.deletedFiles
      fun file _ => DeletedFileArgs.read_again file)
  show ((toVec FileDiffArgs.read (ofVec Api.FileDiff.json args.intoApi.diffs)).bind fun diffs =>
    (toVec NewFileArgs.read (ofVec Api.NewFile.json args.intoApi.newFiles)).bind fun newFiles =>
      (toVec DeletedFileArgs.read (ofVec Api.DeleteFile.json args.intoApi.deletedFiles)).bind fun deletedFiles =>
        some (ApplyFileDiffsArgs.mk (some args.intoApi.summary) diffs newFiles deletedFiles [])).map intoApi = _
  rw [readDiffs, readNew, readDeleted]
  show some (Api.ApplyFileDiffs.mk args.intoApi.summary (diffs.map FileDiffArgs.intoApi)
    (newFiles.map NewFileArgs.intoApi) (deletedFiles.map DeletedFileArgs.intoApi) []) = _
  rw [intoDiffs, intoNew, intoDeleted]

theorem ToolName.intoTool_readAgain {uuid : ℕ → String} {arguments : String} {tool : Api.Tool} (name : ToolName)
    (isTool : name.intoTool serde uuid arguments = .ok (.tool tool)) :
    (name ≠ .suggestPrompt ∧ tool.ReadAgain ∧ (name ≠ .applyFileDiffs → tool.remembered = tool)) ∨
      (name = .suggestPrompt ∧ tool.arguments = none) := by
  have inverted : ∀ {α : Type} {reader : Json → Option α} {f : α → Api.Tool},
      (serde.read reader arguments).map (fun args => Requested.tool (f args)) = .ok (.tool tool) →
      ∃ args, f args = tool := by
    intro α reader f mapped
    cases result : serde.read reader arguments with
    | error error =>
      rw [result] at mapped
      cases mapped
    | ok args =>
      rw [result] at mapped
      cases mapped
      exact ⟨args, rfl⟩
  have noTool : ∀ {α : Type} {reader : Json → Option α} {f : α → Requested}, (∀ args, f args ≠ .tool tool) →
      (serde.read reader arguments).map f ≠ .ok (.tool tool) := by
    intro α reader f other mapped
    cases result : serde.read reader arguments with
    | error error =>
      rw [result] at mapped
      cases mapped
    | ok args =>
      rw [result] at mapped
      exact other args (Except.ok.inj mapped)
  cases name with
  | suggestPrompt =>
    obtain ⟨args, rfl⟩ := inverted isTool
    exact .inr ⟨rfl, rfl⟩
  | saveKnowledge => exact absurd isTool (noTool nofun)
  | suggestRule => exact absurd isTool (noTool nofun)
  | unknown name => cases isTool
  | runShellCommand =>
    obtain ⟨args, rfl⟩ := inverted isTool
    exact .inl ⟨nofun, args.readAgain, fun _ => rfl⟩
  | readShellCommandOutput =>
    obtain ⟨args, rfl⟩ := inverted isTool
    exact .inl ⟨nofun, args.readAgain, fun _ => rfl⟩
  | writeToLrc =>
    obtain ⟨args, rfl⟩ := inverted isTool
    exact .inl ⟨nofun, args.readAgain, fun _ => rfl⟩
  | transferShellCommandControl =>
    obtain ⟨args, rfl⟩ := inverted isTool
    exact .inl ⟨nofun, args.readAgain, fun _ => rfl⟩
  | readFiles =>
    obtain ⟨args, rfl⟩ := inverted isTool
    exact .inl ⟨nofun, args.readAgain, fun _ => rfl⟩
  | searchCodebase =>
    obtain ⟨args, rfl⟩ := inverted isTool
    exact .inl ⟨nofun, args.readAgain, fun _ => rfl⟩
  | grep =>
    obtain ⟨args, rfl⟩ := inverted isTool
    exact .inl ⟨nofun, args.readAgain, fun _ => rfl⟩
  | fileGlob =>
    obtain ⟨args, rfl⟩ := inverted isTool
    exact .inl ⟨nofun, args.readAgain, fun _ => rfl⟩
  | fileGlobV2 =>
    obtain ⟨args, rfl⟩ := inverted isTool
    exact .inl ⟨nofun, args.readAgain, fun _ => rfl⟩
  | askUserQuestion =>
    obtain ⟨args, rfl⟩ := inverted isTool
    exact .inl ⟨nofun, args.readAgain uuid, fun _ => rfl⟩
  | applyFileDiffs =>
    obtain ⟨args, rfl⟩ := inverted isTool
    exact .inl ⟨nofun, args.readAgain, fun other => absurd rfl other⟩
  | readSkill =>
    have isSkill : (serde.read ReadSkillArgs.read arguments).bind (fun args => args.intoApi.map fun skill =>
      Requested.tool (.readSkill skill)) = .ok (.tool tool) := isTool
    cases result : serde.read ReadSkillArgs.read arguments with
    | error error =>
      rw [result] at isSkill
      cases isSkill
    | ok args =>
      rw [result] at isSkill
      replace isSkill : args.intoApi.map (fun skill => Requested.tool (.readSkill skill)) =
        .ok (.tool tool) := isSkill
      cases skill : args.intoApi with
      | error error =>
        rw [skill] at isSkill
        cases isSkill
      | ok skill =>
        rw [‹args.intoApi = _›] at isSkill
        cases isSkill
        exact .inl ⟨nofun, ReadSkillArgs.readAgain ‹_›, fun _ => rfl⟩

theorem ToolName.remembered_applyFileDiffs {uuid : ℕ → String} {arguments : String} {tool : Api.Tool}
    (isTool : ToolName.applyFileDiffs.intoTool serde uuid arguments = .ok (.tool tool)) :
    tool.remembered = tool ↔ ∀ args, serde.read ApplyFileDiffsArgs.read arguments = .ok args → args.v4aUpdates = [] := by
  replace isTool : (serde.read ApplyFileDiffsArgs.read arguments).map (fun args =>
    Requested.tool (.applyFileDiffs args.intoApi)) = .ok (.tool tool) := isTool
  cases result : serde.read ApplyFileDiffsArgs.read arguments with
  | error error =>
    rw [result] at isTool
    cases isTool
  | ok args =>
    rw [result] at isTool
    cases isTool
    constructor
    · intro same other isArgs
      cases isArgs
      have updates : [] = args.v4aUpdates.map V4aUpdateArgs.intoApi :=
        congrArg Api.ApplyFileDiffs.v4aUpdates (Api.Tool.applyFileDiffs.inj same)
      exact List.map_eq_nil_iff.mp updates.symm
    · intro nothing
      show Api.Tool.applyFileDiffs ⟨_, _, _, _, []⟩ = Api.Tool.applyFileDiffs ⟨_, _, _, _, args.v4aUpdates.map _⟩
      rw [nothing args rfl]
      rfl

theorem ToolName.ofString_eq_suggestPrompt {s : String} : ofString s = .suggestPrompt ↔ s = "suggest_prompt" := by
  constructor
  · intro same
    unfold ofString at same
    split at same
    all_goals first | rfl | cases same
  · rintro rfl
    rfl

theorem ToolName.ofString_eq_applyFileDiffs {s : String} : ofString s = .applyFileDiffs ↔ s = "apply_file_diffs" := by
  constructor
  · intro same
    unfold ofString at same
    split at same
    all_goals first | rfl | cases same
  · rintro rfl
    rfl

end Tools

section History

theorem newId_ne {start uuid : String} (named : start ≠ "") : start ++ uuid ≠ "" := by
  intro empty
  have letters := congrArg String.toList empty
  rw [String.toList_append] at letters
  exact named (String.toList_inj.mp (List.append_eq_nil_iff.mp letters).1)

/-- The tool call as the model reads it in its history. -/
def OpenAIMessageToolCall.accumulated (call : OpenAIMessageToolCall) : ToolCallAccumulator where
  id := some call.id
  type := some call.type
  name := some call.function.name
  arguments := call.function.arguments

def ToolCallAccumulator.toolCallId (uuid : ℕ → String) (self : ToolCallAccumulator) : String :=
  (self.id.filter fun id => id ≠ "").getD ("tool_" ++ uuid 0)

variable {self : ToolCallAccumulator}

theorem ToolCallAccumulator.toolCallId_ne {uuid : ℕ → String} :
    self.toolCallId uuid ≠ "" := by
  unfold toolCallId
  cases kept : self.id.filter fun id => id ≠ "" with
  | none => exact newId_ne (by decide)
  | some id => exact of_decide_eq_true (Option.filter_eq_some_iff.mp kept).2

theorem ToolCallAccumulator.intoWarpClientOutput_toolCall {serde : SerdeJson} {uuid : ℕ → String} {call : Api.ToolCall} :
    self.intoWarpClientOutput serde uuid = .ok (.toolCall call) ↔ ∃ name tool, self.name = some name ∧
      (ToolName.ofString name).intoTool serde uuid self.arguments = .ok (.tool tool) ∧
      call = ⟨self.toolCallId uuid, some tool⟩ := by
  unfold intoWarpClientOutput
  constructor
  · intro returned
    cases named : self.name with
    | none =>
      rw [named] at returned
      cases returned
    | some name =>
      rw [named] at returned
      dsimp only at returned
      cases output : (ToolName.ofString name).intoTool serde uuid self.arguments with
      | error error =>
        rw [output] at returned
        cases returned
      | ok requested =>
        rw [output] at returned
        cases requested with
        | tool tool =>
          cases returned
          exact ⟨name, tool, rfl, output, rfl⟩
        | suggestions made => cases returned
        | localKnowledge args => cases returned
  · rintro ⟨name, tool, named, output, rfl⟩
    rw [named]
    dsimp only
    rw [output]
    rfl

/-- A tool call survives the trip through the history just if it is no suggested prompt and edits nothing by hunks. -/
theorem ToolCallAccumulator.survives_iff (serde : SerdeJson) (uuid : ℕ → String) (self : ToolCallAccumulator)
    (call : Api.ToolCall) (returned : self.intoWarpClientOutput serde uuid = .ok (.toolCall call))
    (roundTrip : ∀ tool name json, call.tool = some tool → tool.arguments = some (name, json) →
      serde.fromStr (serde.toString json) = .ok json) :
    (∃ shown, warpToolCallToOpenai serde call = some shown ∧ shown.id = call.toolCallId ∧
      ∀ other, shown.accumulated.intoWarpClientOutput serde other = .ok (.toolCall call)) ↔
    self.name ≠ some "suggest_prompt" ∧ (self.name = some "apply_file_diffs" →
      ∀ args, serde.read ApplyFileDiffsArgs.read self.arguments = .ok args → args.v4aUpdates = []) := by
  obtain ⟨name, tool, named, isTool, rfl⟩ := intoWarpClientOutput_toolCall.mp returned
  have edits : (self.name = some "apply_file_diffs" →
      ∀ args, serde.read ApplyFileDiffsArgs.read self.arguments = .ok args → args.v4aUpdates = []) ↔
      (ToolName.ofString name = .applyFileDiffs → tool.remembered = tool) := by
    rw [named, some_inj, ToolName.ofString_eq_applyFileDiffs]
    apply forall_congr'
    rintro rfl
    exact (ToolName.remembered_applyFileDiffs isTool).symm
  rw [edits, named, Ne, some_inj, ← ToolName.ofString_eq_suggestPrompt]
  rcases ToolName.intoTool_readAgain _ isTool with ⟨noPrompt, readAgain, others⟩ | ⟨prompt, nothing⟩
  · obtain ⟨shownName, json, written, runs⟩ := readAgain
    have parsed := roundTrip tool shownName json rfl written
    have shown : warpToolCallToOpenai serde ⟨self.toolCallId uuid, some tool⟩ =
        some ⟨self.toolCallId uuid, "function", shownName, serde.toString json⟩ := by
      unfold warpToolCallToOpenai
      dsimp only
      rw [bind_eq_bind, bind_some, written]
      rfl
    have sameId : ∀ other, (OpenAIMessageToolCall.accumulated ⟨self.toolCallId uuid, "function", shownName,
        serde.toString json⟩).toolCallId other = self.toolCallId uuid := by
      intro other
      show ((some (self.toolCallId uuid)).filter fun id => id ≠ "").getD _ = _
      rw [filter_some, if_pos (decide_eq_true toolCallId_ne)]
      rfl
    have again : ∀ other, (OpenAIMessageToolCall.accumulated ⟨self.toolCallId uuid, "function", shownName,
        serde.toString json⟩).intoWarpClientOutput serde other =
        .ok (.toolCall ⟨self.toolCallId uuid, some tool.remembered⟩) := by
      intro other
      apply intoWarpClientOutput_toolCall.mpr
      exact ⟨shownName, tool.remembered, rfl, runs serde _ parsed other, by rw [sameId]⟩
    constructor
    · rintro ⟨other, isShown, -, survives⟩
      refine ⟨noPrompt, fun _ => ?_⟩
      rw [shown] at isShown
      cases isShown
      have same := Except.ok.inj ((again uuid).symm.trans (survives uuid))
      exact Option.some.inj (Api.ToolCall.mk.inj (WarpClientOutput.toolCall.inj same)).2
    · rintro ⟨-, edited⟩
      have same : tool.remembered = tool := by
        by_cases isEdit : ToolName.ofString name = .applyFileDiffs
        · exact edited isEdit
        · exact others isEdit
      refine ⟨_, shown, rfl, fun other => ?_⟩
      rw [again, same]
  · constructor
    · rintro ⟨other, isShown, -⟩
      unfold warpToolCallToOpenai at isShown
      dsimp only at isShown
      rw [bind_eq_bind, bind_some, nothing] at isShown
      cases isShown
    · rintro ⟨noPrompt, -⟩
      exact absurd prompt noPrompt

/-- An edit by hunks, and what the history shows of it. -/
def SerdeJson.sample : SerdeJson where
  fromStr text :=
    if text = "\x7b\"v4a_updates\":[\x7b\"file_path\":\"notes.md\",\"hunks\":[\x7b\"new\":\"a\"\x7d]\x7d]\x7d" then
      .ok (object [("v4a_updates", array [object [("file_path", .string "notes.md"),
        ("hunks", array [object [("new", .string "a")]])]])])
    else if text = "\x7b\"deleted_files\":[],\"diffs\":[],\"new_files\":[],\"summary\":\"Apply file edits\"\x7d" then
      .ok (object [("deleted_files", array []), ("diffs", array []), ("new_files", array []),
        ("summary", .string "Apply file edits")])
    else .error "expected value at line 1 column 1"
  toString _ := "\x7b\"deleted_files\":[],\"diffs\":[],\"new_files\":[],\"summary\":\"Apply file edits\"\x7d"
  typeError _ := "invalid type"

def ToolCallAccumulator.hunkEdit : ToolCallAccumulator where
  id := some "call_1"
  type := some "function"
  name := some "apply_file_diffs"
  arguments := "\x7b\"v4a_updates\":[\x7b\"file_path\":\"notes.md\",\"hunks\":[\x7b\"new\":\"a\"\x7d]\x7d]\x7d"

def Api.ToolCall.hunkEdit : Api.ToolCall where
  toolCallId := "call_1"
  tool := some (.applyFileDiffs ⟨"Apply file edits", [], [], [], [⟨"notes.md", "", [⟨[], "", "", "a", ""⟩]⟩]⟩)

theorem ToolCallAccumulator.hunkEdit_returned (uuid : ℕ → String) :
    hunkEdit.intoWarpClientOutput .sample uuid = .ok (.toolCall .hunkEdit) := rfl

theorem SerdeJson.sample_roundTrip : ∀ tool name json, Api.ToolCall.hunkEdit.tool = some tool →
    tool.arguments = some (name, json) → SerdeJson.sample.fromStr (SerdeJson.sample.toString json) = .ok json := by
  intro tool name json isTool written
  cases isTool
  cases written
  rfl

theorem ToolCallAccumulator.survives_iff_sample :
    (∃ shown, warpToolCallToOpenai .sample .hunkEdit = some shown ∧ shown.id = Api.ToolCall.hunkEdit.toolCallId ∧
      ∀ other, shown.accumulated.intoWarpClientOutput .sample other = .ok (.toolCall .hunkEdit)) ↔
    hunkEdit.name ≠ some "suggest_prompt" ∧ (hunkEdit.name = some "apply_file_diffs" →
      ∀ args, SerdeJson.sample.read ApplyFileDiffsArgs.read hunkEdit.arguments = .ok args → args.v4aUpdates = []) :=
  survives_iff .sample (fun _ => "7f3c") hunkEdit .hunkEdit (hunkEdit_returned _) SerdeJson.sample_roundTrip

/-- An edit by hunks is shown without them. -/
theorem ToolCallAccumulator.hunkEdit_lost :
    ¬ ∀ (serde : SerdeJson) (uuid : ℕ → String) (self : ToolCallAccumulator) (call : Api.ToolCall),
      self.intoWarpClientOutput serde uuid = .ok (.toolCall call) →
      (∀ tool name json, call.tool = some tool → tool.arguments = some (name, json) →
        serde.fromStr (serde.toString json) = .ok json) →
      ∃ shown, warpToolCallToOpenai serde call = some shown ∧ shown.id = call.toolCallId ∧
        ∀ other, shown.accumulated.intoWarpClientOutput serde other = .ok (.toolCall call) := by
  intro claimed
  obtain ⟨shown, isShown, -, survives⟩ := claimed .sample (fun _ => "7f3c") hunkEdit .hunkEdit (hunkEdit_returned _)
    SerdeJson.sample_roundTrip
  cases isShown
  have lost : (OpenAIMessageToolCall.accumulated ⟨"call_1", "function", "apply_file_diffs",
      SerdeJson.sample.toString (object [])⟩).intoWarpClientOutput .sample (fun _ => "7f3c") =
      .ok (.toolCall ⟨"call_1", some (.applyFileDiffs ⟨"Apply file edits", [], [], [], []⟩)⟩) := rfl
  have same := Except.ok.inj (lost.symm.trans (survives fun _ => "7f3c"))
  have tools := Option.some.inj (Api.ToolCall.mk.inj (WarpClientOutput.toolCall.inj same)).2
  cases tools

end History

end Warp.Proxy
