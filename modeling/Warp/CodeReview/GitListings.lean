import Mathlib.Data.List.DropRight
import Warp.Lib.ByteSlice

namespace Warp.CodeReview

open List

inductive GitFileStatus
  | new
  | modified
  | deleted
  | renamed (oldPath : Str)
  | copied (oldPath : Str)
  | untracked
  | conflicted
  deriving DecidableEq

namespace GitFileStatus

def deletedCodes : List Str := [['.', 'D'], ['D', '.'], ['A', 'D']]

/-- Every code has a status, the fallback is `modified`. -/
def tryFrom (statusCode : Str) : GitFileStatus :=
  if statusCode ∈ [['.', 'M'], ['M', '.'], ['M', 'M']] then modified
  else if statusCode ∈ [['.', 'A'], ['A', '.'], ['A', 'M']] then new
  else if statusCode ∈ deletedCodes then deleted
  else modified

def oldPath : GitFileStatus → Option Str
  | renamed oldPath | copied oldPath => some oldPath
  | _ => none

theorem tryFrom_eq_deleted_iff {statusCode : Str} : tryFrom statusCode = deleted ↔ statusCode ∈ deletedCodes := by
  unfold tryFrom
  split_ifs with isModified isNew isDeleted
  · simp only [mem_cons, not_mem_nil, or_false] at isModified
    rcases isModified with rfl | rfl | rfl <;> decide
  · simp only [mem_cons, not_mem_nil, or_false] at isNew
    rcases isNew with rfl | rfl | rfl <;> decide
  · simp [isDeleted]
  · simp [isDeleted]

theorem oldPath_tryFrom (statusCode : Str) : (tryFrom statusCode).oldPath = none := by
  unfold tryFrom
  split_ifs <;> rfl

end GitFileStatus

def nul : Char := '\x00'

def splitn (c : Char) : ℕ → Str → List Str
  | 0, _ => []
  | 1, s => [s]
  | n + 2, s => if c ∈ s then s.takeWhile (· ≠ c) :: splitn c (n + 1) (s.dropWhile (· ≠ c)).tail else [s]

/-- The files that a token adds, and whether the next one belongs to it. Nothing stands for a panic. -/
def readStatus (token : Str) (next : Option Str) : Option (List (Str × GitFileStatus)) × Bool :=
  if token = [] ∨ ['#', ' '] <+: token then (some [], false)
  else match token.head?.getD '?' with
    | '1' =>
      let parts := splitn ' ' 9 token
      if 9 ≤ parts.length then (some [(parts.getD 8 [], .tryFrom (parts.getD 1 []))], false) else (some [], false)
    | '2' =>
      let parts := splitn ' ' 10 token
      if 10 ≤ parts.length then
        let statusCode := parts.getD 1 []
        let oldPath := next.getD []
        let status :=
          if statusCode.head? = some 'R' then .renamed oldPath
          else if statusCode.head? = some 'C' then .copied oldPath
          else .tryFrom statusCode
        (some [(parts.getD 9 [], status)], true)
      else (some [], false)
    | 'u' =>
      let parts := splitn ' ' 11 token
      if 11 ≤ parts.length then (some [(parts.getD 10 [], .conflicted)], false) else (some [], false)
    | '?' =>
      if 2 < token.byteLen then ((token.byteSlice 2 token.byteLen).map fun path => [(path, .untracked)], false)
      else (some [], false)
    | _ => (some [], false)

def readStatuses : List Str → Option (List (Str × GitFileStatus))
  | [] => some []
  | [token] => (readStatus token none).1
  | token :: next :: rest =>
    (readStatus token (some next)).1.bind fun files =>
      (if (readStatus token (some next)).2 then readStatuses rest else readStatuses (next :: rest)).map (files ++ ·)

def parseGitStatus (statusOutput : Str) : Option (List (Str × GitFileStatus)) :=
  if statusOutput = [] then some [] else readStatuses (statusOutput.splitOn nul)

/-- A copy takes its two paths the other way round. -/
def readNameStatuses : List Str → List (Str × GitFileStatus)
  | [] => []
  | token :: rest =>
    if token.trim = [] then readNameStatuses rest
    else match rest with
      | [] => []
      | path :: rest =>
        if path.trim = [] then readNameStatuses rest
        else match token.trim.head?.getD 'M', rest with
          | 'A', rest => (path.trim, .new) :: readNameStatuses rest
          | 'D', rest => (path.trim, .deleted) :: readNameStatuses rest
          | 'R', newPath :: rest => (newPath.trim, .renamed path.trim) :: readNameStatuses rest
          | 'C', oldPath :: rest => (path.trim, .copied oldPath.trim) :: readNameStatuses rest
          | _, rest => (path.trim, .modified) :: readNameStatuses rest

def parseGitDiffNameStatus (diffOutput : Str) : List (Str × GitFileStatus) :=
  if diffOutput = [] then [] else readNameStatuses (diffOutput.splitOn nul)

abbrev Plain := {s : Str // nul ∉ s}

abbrev Field := {s : Str // ' ' ∉ s ∧ nul ∉ s}

abbrev StatusChar := {c : Char // c ≠ ' ' ∧ c ≠ nul}

abbrev PathText := {s : Str // s ≠ [] ∧ nul ∉ s}

/-- The text of tokens, each with its end. -/
def listing (tokens : List Str) : Str := tokens.flatMap (· ++ [nul])

def texts {n : ℕ} (fields : List.Vector Field n) : List Str := fields.toList.map (·.val)

@[simp] theorem length_texts {n : ℕ} (fields : List.Vector Field n) : (texts fields).length = n := by simp [texts]

/-- A line of the porcelain format: its kind, its fields and, last, the path. -/
def record (kind : Char) (fields : List Str) (path : Str) : Str := ([kind] :: fields).flatMap (· ++ [' ']) ++ path

inductive StatusEntry
  | ordinary (x y : StatusChar) (fields : List.Vector Field 6) (path : PathText)
  | moved (x y : StatusChar) (fields : List.Vector Field 7) (path oldPath : PathText)
  | unmerged (fields : List.Vector Field 9) (path : PathText)
  | untracked (path : PathText)
  | ignored (path : PathText)

namespace StatusEntry

def code (x y : StatusChar) : Str := [x.val, y.val]

def tokens : StatusEntry → List Str
  | ordinary x y fields path => [record '1' (code x y :: texts fields) path]
  | moved x y fields path oldPath => [record '2' (code x y :: texts fields) path, oldPath]
  | unmerged fields path => [record 'u' (texts fields) path]
  | untracked path => ['?' :: ' ' :: path.val]
  | ignored path => ['!' :: ' ' :: path.val]

def isIgnored : StatusEntry → Bool
  | ignored _ => true
  | _ => false

/-- The entry's file, as it should be read. -/
def ReadAs : StatusEntry → Str × GitFileStatus → Prop
  | ordinary x y _ path, file =>
    file.1 = path ∧ file.2.oldPath = none ∧ (y.val = 'D' ∨ code x y = ['D', '.'] → file.2 = .deleted)
  | moved _ _ _ path oldPath, file => file.1 = path ∧ file.2.oldPath = some oldPath.val
  | unmerged _ path, file | untracked path, file | ignored path, file => file.1 = path ∧ file.2.oldPath = none

/-- An ordinary entry that is missing has one of the three codes, a moved one was moved in the index. -/
def Listed : StatusEntry → Prop
  | ordinary x y _ _ => y.val = 'D' → x.val ∈ ['.', 'A']
  | moved x _ _ _ _ => x.val ∈ ['R', 'C']
  | _ => True

def files : StatusEntry → List (Str × GitFileStatus)
  | ordinary x y _ path => [(path, .tryFrom (code x y))]
  | moved x y _ path oldPath =>
    [(path, if x.val = 'R' then .renamed oldPath else if x.val = 'C' then .copied oldPath else .tryFrom (code x y))]
  | unmerged _ path => [(path, .conflicted)]
  | untracked path => [(path, .untracked)]
  | ignored _ => []

end StatusEntry

def statusOutput (headers : List Plain) (entries : List StatusEntry) : Str :=
  listing (headers.map ('#' :: ' ' :: ·.val) ++ entries.flatMap StatusEntry.tokens)

/-- The status comes first, then the paths, the old one before the new. -/
inductive NameStatusEntry
  | single (code : {c : Char // ¬ Str.isWhitespace c ∧ c ≠ nul ∧ c ∉ ['R', 'C']}) (score : Plain) (path : PathText)
  | renamed (score : Plain) (oldPath path : PathText)
  | copied (score : Plain) (oldPath path : PathText)

namespace NameStatusEntry

def tokens : NameStatusEntry → List Str
  | single code score path => [code.val :: score.val, path]
  | renamed score oldPath path => ['R' :: score.val, oldPath, path]
  | copied score oldPath path => ['C' :: score.val, oldPath, path]

def ReadAs : NameStatusEntry → Str × GitFileStatus → Prop
  | single _ _ path, file => file.1 = path ∧ file.2.oldPath = none
  | renamed _ oldPath path, file | copied _ oldPath path, file => file.1 = path ∧ file.2.oldPath = some oldPath.val

def Trimmed : NameStatusEntry → Prop
  | single _ _ path => path.val.trim = path
  | renamed _ oldPath path | copied _ oldPath path => oldPath.val.trim = oldPath ∧ path.val.trim = path

/-- No blanks around a path, and no copy to another path. -/
def Listed : NameStatusEntry → Prop
  | single _ _ path => path.val.trim = path
  | renamed _ oldPath path => oldPath.val.trim = oldPath ∧ path.val.trim = path
  | copied _ oldPath path => oldPath = path ∧ path.val.trim = path

end NameStatusEntry

def nameStatusOutput (entries : List NameStatusEntry) : Str := listing (entries.flatMap NameStatusEntry.tokens)

section Splits

variable {c : Char} {field path : Str} {fields : List Str}

theorem splitn_field (plain : c ∉ field) (n : ℕ) (s : Str) :
    splitn c (n + 2) (field ++ c :: s) = field :: splitn c (n + 1) s := by
  have others : ∀ d ∈ field, decide (d ≠ c) = true := fun d inside => decide_eq_true fun same => plain (same ▸ inside)
  rw [splitn, if_pos (by simp), takeWhile_append_of_pos others, dropWhile_append_of_pos others]
  simp

theorem splitn_fields (plain : ∀ field ∈ fields, c ∉ field) :
    splitn c (fields.length + 1) (fields.flatMap (· ++ [c]) ++ path) = fields ++ [path] := by
  induction fields with
  | nil => rfl
  | cons field fields ih =>
    rw [forall_mem_cons] at plain
    simpa [ih plain.2] using splitn_field plain.1 fields.length (fields.flatMap (· ++ [c]) ++ path)

theorem splitn_record (kind : Char) (path : Str) {n : ℕ} (solid : kind ≠ ' ') (plain : ∀ field ∈ fields, ' ' ∉ field)
    (length : fields.length + 2 = n) : splitn ' ' n (record kind fields path) = [kind] :: fields ++ [path] := by
  have whole : ∀ field ∈ [kind] :: fields, ' ' ∉ field := by simpa [Ne.symm solid] using plain
  rw [← length]
  exact splitn_fields whole

theorem splitOn_listing {tokens : List Str} (plain : ∀ token ∈ tokens, nul ∉ token) :
    (listing tokens).splitOn nul = tokens ++ [[]] := by
  have isListing : listing tokens = [nul].intercalate (tokens ++ [[]]) := by
    induction tokens with
    | nil => rfl
    | cons token tokens ih =>
      rw [forall_mem_cons] at plain
      rw [listing, flatMap_cons, ← listing, ih plain.2]
      cases tokens <;> simp [List.intercalate]
  rw [isListing]
  apply splitOn_intercalate nul
  · simpa [or_imp, forall_and] using plain
  · simp

end Splits

theorem readStatuses_cons {token : Str} {rest : List Str} {files : List (Str × GitFileStatus)}
    (read : ∀ next, readStatus token next = (some files, false)) :
    readStatuses (token :: rest) = (readStatuses rest).map (files ++ ·) := by
  cases rest <;> simp [readStatuses, read]

theorem readStatuses_cons_cons {token next : Str} {rest : List Str} {files : List (Str × GitFileStatus)}
    (read : readStatus token (some next) = (some files, true)) :
    readStatuses (token :: next :: rest) = (readStatuses rest).map (files ++ ·) := by
  simp [readStatuses, read]

theorem readStatuses_headers (headers : List Plain) (rest : List Str) :
    readStatuses (headers.map ('#' :: ' ' :: ·.val) ++ rest) = readStatuses rest := by
  induction headers with
  | nil => rfl
  | cons header headers ih =>
    rw [map_cons, cons_append, @readStatuses_cons _ _ [] fun next => by simp [readStatus], ih]
    cases readStatuses rest <;> simp

theorem plain_texts {n : ℕ} (fields : List.Vector Field n) : ∀ field ∈ texts fields, ' ' ∉ field ∧ nul ∉ field := by
  simp only [texts, List.mem_map]
  rintro _ ⟨field, -, rfl⟩
  exact field.property

theorem record_solid {kind : Char} {fields : List Str} {path : Str} (other : kind ≠ '#') :
    ¬ (record kind fields path = [] ∨ ['#', ' '] <+: record kind fields path) := by
  simp [record, Ne.symm other]

namespace StatusEntry

theorem readStatuses_tokens (entry : StatusEntry) (rest : List Str) :
    readStatuses (entry.tokens ++ rest) = (readStatuses rest).map (entry.files ++ ·) := by
  have codes {x y : StatusChar} {n : ℕ} (fields : List.Vector Field n) :
      ∀ field ∈ code x y :: texts fields, ' ' ∉ field := by
    simpa [code, Ne.symm x.property.1, Ne.symm y.property.1] using fun field isText => (plain_texts fields field isText).1
  cases entry with
  | ordinary x y fields path =>
    have parts := splitn_record '1' path (n := 9) (by decide) (@codes x y _ fields) (by simp)
    have head : (record '1' (code x y :: texts fields) path).head?.getD '?' = '1' := rfl
    apply readStatuses_cons
    intro next
    rw [readStatus, if_neg (record_solid (by decide)), head]
    dsimp only
    rw [parts]
    simp [files, List.getD]
  | moved x y fields path oldPath =>
    have parts := splitn_record '2' path (n := 10) (by decide) (@codes x y _ fields) (by simp)
    have head : (record '2' (code x y :: texts fields) path).head?.getD '?' = '2' := rfl
    apply readStatuses_cons_cons
    rw [readStatus, if_neg (record_solid (by decide)), head]
    dsimp only
    rw [parts]
    simp [files, List.getD, code]
  | unmerged fields path =>
    have parts := splitn_record 'u' path (n := 11) (by decide)
      (fun field isText => (plain_texts fields field isText).1) (by simp)
    have head : (record 'u' (texts fields) path).head?.getD '?' = 'u' := rfl
    apply readStatuses_cons
    intro next
    rw [readStatus, if_neg (record_solid (by decide)), head]
    dsimp only
    rw [parts]
    simp [files, List.getD]
  | untracked path =>
    have size : 0 < path.val.byteLen := Nat.pos_of_ne_zero fun none => path.property.1 (Str.byteLen_eq_zero_iff.mp none)
    have sliced : Str.byteSlice ('?' :: ' ' :: path.val) 2 (Str.byteLen ('?' :: ' ' :: path.val)) = some path.val :=
      Str.byteSlice_eq_some_iff.mpr ⟨['?', ' '], [], by simp, rfl, (Nat.add_assoc 1 1 path.val.byteLen)⟩
    apply readStatuses_cons
    intro next
    have many : 2 < Str.byteLen ('?' :: ' ' :: path.val) := show 2 < 1 + (1 + path.val.byteLen) by omega
    rw [readStatus, if_neg (by simp)]
    simp only [List.head?_cons, Option.getD_some, sliced, many, if_true]
    rfl
  | ignored path =>
    apply readStatuses_cons
    intro next
    simp [readStatus, files]

theorem plain_tokens (entry : StatusEntry) : ∀ token ∈ entry.tokens, nul ∉ token := by
  have plain {kind : Char} {fields : List Str} (other : kind ≠ nul) (each : ∀ field ∈ fields, nul ∉ field)
      (path : PathText) : nul ∉ record kind fields path := by
    simpa [record, Ne.symm other, path.property.2, show nul ≠ ' ' by decide] using each
  have codes {x y : StatusChar} {n : ℕ} (fields : List.Vector Field n) :
      ∀ field ∈ code x y :: texts fields, nul ∉ field := by
    simpa [code, Ne.symm x.property.2, Ne.symm y.property.2] using fun field isText => (plain_texts fields field isText).2
  cases entry with
  | ordinary x y fields path => simpa [tokens] using plain (by decide) (codes fields) path
  | moved x y fields path oldPath =>
    simpa [tokens, oldPath.property.2] using plain (by decide) (codes fields) path
  | unmerged fields path =>
    simpa [tokens] using plain (by decide) (fun field isText => (plain_texts fields field isText).2) path
  | untracked path | ignored path => simpa [tokens, nul] using path.property.2

theorem readStatuses_entries (entries : List StatusEntry) :
    readStatuses (entries.flatMap tokens ++ [[]]) = some (entries.flatMap files) := by
  induction entries with
  | nil => rfl
  | cons entry entries ih => simp [append_assoc, readStatuses_tokens, ih]

theorem parseGitStatus_statusOutput (headers : List Plain) (entries : List StatusEntry) :
    parseGitStatus (statusOutput headers entries) = some (entries.flatMap files) := by
  have plain : ∀ token ∈ headers.map ('#' :: ' ' :: ·.val) ++ entries.flatMap tokens, nul ∉ token := by
    simp only [mem_append, List.mem_map, mem_flatMap]
    rintro token (⟨header, -, rfl⟩ | ⟨entry, -, isToken⟩)
    · simpa [nul] using header.property
    · exact entry.plain_tokens token isToken
  have read : readStatuses ((statusOutput headers entries).splitOn nul) = some (entries.flatMap files) := by
    rw [statusOutput, splitOn_listing plain, append_assoc, readStatuses_headers, readStatuses_entries]
  unfold parseGitStatus
  split
  · rename_i empty
    rw [empty] at read
    exact read
  · exact read

theorem readAs_files (entry : StatusEntry) (counted : entry.isIgnored = false) :
    ∃ file, entry.files = [file] ∧ (entry.ReadAs file ↔ entry.Listed) := by
  cases entry with
  | ordinary x y fields path =>
    refine ⟨_, rfl, ?_⟩
    simp only [ReadAs, Listed, GitFileStatus.oldPath_tryFrom, GitFileStatus.tryFrom_eq_deleted_iff,
      GitFileStatus.deletedCodes, code, true_and]
    simp
    grind
  | moved x y fields path oldPath =>
    refine ⟨_, rfl, ?_⟩
    simp only [ReadAs, Listed, true_and]
    split_ifs with isR isC
    · simp [isR, GitFileStatus.oldPath]
    · simp [isC, GitFileStatus.oldPath]
    · simp [isR, isC, GitFileStatus.oldPath_tryFrom]
  | unmerged fields path | untracked path => exact ⟨_, rfl, by simp [ReadAs, Listed, GitFileStatus.oldPath]⟩
  | ignored path => cases counted

theorem forall₂_files_iff (entries : List StatusEntry) :
    List.Forall₂ ReadAs (entries.filter fun entry => !entry.isIgnored) (entries.flatMap files) ↔
      ∀ entry ∈ entries, entry.Listed := by
  induction entries with
  | nil => simp
  | cons entry entries ih =>
    cases counted : entry.isIgnored with
    | true =>
      cases entry with
      | ignored path => simpa [files, isIgnored, Listed] using ih
      | _ => cases counted
    | false =>
      obtain ⟨file, isFile, known⟩ := entry.readAs_files counted
      simp [counted, isFile, known, ih]

end StatusEntry

theorem trim_trim (s : Str) : s.trim.trim = s.trim := by
  have isTrim (s : Str) : s.trim = (s.dropWhile Str.isWhitespace).rdropWhile Str.isWhitespace := rfl
  cases rest : s.trim with
  | nil => rfl
  | cons c t =>
    -- What is left starts as before the end was cut.
    have solid : ¬ Str.isWhitespace c := by
      have starts : (c :: t) <+: s.dropWhile Str.isWhitespace := by
        rw [← rest, isTrim]
        exact rdropWhile_prefix _ _
      obtain ⟨behind, isStart⟩ := starts
      have head := List.head?_dropWhile_not Str.isWhitespace s
      rw [← isStart] at head
      simpa using head
    rw [isTrim, dropWhile_cons_of_neg solid, ← rest, isTrim, rdropWhile_idempotent]

theorem head_trim {c : Char} (solid : ¬ Str.isWhitespace c) (s : Str) : ∃ t, Str.trim (c :: s) = c :: t := by
  have isTrim : Str.trim (c :: s) = (c :: s).rdropWhile Str.isWhitespace := by
    rw [Str.trim, Str.trimStart, dropWhile_cons_of_neg solid, List.rdropWhile]
  have starts : (c :: s).rdropWhile Str.isWhitespace <+: c :: s := rdropWhile_prefix _ _
  rw [isTrim]
  cases kept : (c :: s).rdropWhile Str.isWhitespace with
  | nil => exact absurd (List.rdropWhile_eq_nil_iff.mp kept c mem_cons_self) solid
  | cons d t =>
    rw [kept, cons_prefix_cons] at starts
    exact ⟨t, by rw [starts.1]⟩

theorem readNameStatuses_trimmed (tokens : List Str) : ∀ file ∈ readNameStatuses tokens,
    file.1.trim = file.1 ∧ ∀ oldPath ∈ file.2.oldPath, oldPath.trim = oldPath := by
  fun_induction readNameStatuses tokens <;> first
    | assumption
    | exact List.forall_mem_cons.mpr ⟨⟨trim_trim _, by simp [GitFileStatus.oldPath, trim_trim]⟩, by assumption⟩
    | simp

namespace NameStatusEntry

/-- A copy is read with its paths exchanged. -/
def file : NameStatusEntry → Str × GitFileStatus
  | single code _ path => (path, if code.val = 'A' then .new else if code.val = 'D' then .deleted else .modified)
  | renamed _ oldPath path => (path, .renamed oldPath)
  | copied _ oldPath path => (oldPath, .copied path)

theorem readNameStatuses_tokens (entry : NameStatusEntry) (trimmed : entry.Trimmed) (rest : List Str) :
    readNameStatuses (entry.tokens ++ rest) = entry.file :: readNameStatuses rest := by
  cases entry with
  | single code score path =>
    obtain ⟨t, isTrim⟩ := head_trim code.property.1 score
    have isPath : path.val.trim = path := trimmed
    have other := code.property.2.2
    simp only [mem_cons, not_mem_nil, or_false, not_or] at other
    rw [tokens, cons_append, cons_append, nil_append, readNameStatuses.eq_def]
    simp only [isTrim, isPath, path.property.1, cons_ne_nil, if_false, List.head?_cons, Option.getD_some, file]
    split <;> simp_all
  | renamed score oldPath path =>
    obtain ⟨t, isTrim⟩ := head_trim (c := 'R') (by decide) score.val
    obtain ⟨isOld, isPath⟩ := trimmed
    simp [tokens, readNameStatuses, isTrim, isPath, isOld, oldPath.property.1, file]
  | copied score oldPath path =>
    obtain ⟨t, isTrim⟩ := head_trim (c := 'C') (by decide) score.val
    obtain ⟨isOld, isPath⟩ := trimmed
    simp [tokens, readNameStatuses, isTrim, isPath, isOld, oldPath.property.1, file]

theorem plain_tokens (entry : NameStatusEntry) : ∀ token ∈ entry.tokens, nul ∉ token := by
  cases entry with
  | single code score path => simpa [tokens, Ne.symm code.property.2.1, score.property] using path.property.2
  | renamed score oldPath path | copied score oldPath path =>
    have solid : nul ≠ 'R' ∧ nul ≠ 'C' := by decide
    simp [tokens, solid, score.property, oldPath.property.2, path.property.2]

theorem parseGitDiffNameStatus_eq (entries : List NameStatusEntry) :
    parseGitDiffNameStatus (nameStatusOutput entries) = readNameStatuses (entries.flatMap tokens ++ [[]]) := by
  have plain : ∀ token ∈ entries.flatMap tokens, nul ∉ token := by
    simp only [mem_flatMap]
    rintro token ⟨entry, -, isToken⟩
    exact entry.plain_tokens token isToken
  rw [← splitOn_listing plain]
  unfold parseGitDiffNameStatus nameStatusOutput
  split
  · rename_i empty
    rw [empty]
    rfl
  · rfl

theorem readNameStatuses_entries {entries : List NameStatusEntry} (trimmed : ∀ entry ∈ entries, entry.Trimmed) :
    readNameStatuses (entries.flatMap tokens ++ [[]]) = entries.map file := by
  induction entries with
  | nil => rfl
  | cons entry entries ih =>
    rw [forall_mem_cons] at trimmed
    simp [append_assoc, readNameStatuses_tokens entry trimmed.1, ih trimmed.2]

theorem readAs_file (entry : NameStatusEntry) (trimmed : entry.Trimmed) : entry.ReadAs entry.file ↔ entry.Listed := by
  cases entry with
  | single code score path =>
    simp only [ReadAs, file, Listed, true_and, iff_true_right (show path.val.trim = path from trimmed)]
    split_ifs <;> rfl
  | renamed score oldPath path => exact iff_of_true ⟨rfl, rfl⟩ trimmed
  | copied score oldPath path =>
    obtain ⟨isOld, isPath⟩ := trimmed
    simp [ReadAs, file, Listed, GitFileStatus.oldPath, isPath, Subtype.ext_iff, eq_comm]

theorem ReadAs.trimmed {entry : NameStatusEntry} {file : Str × GitFileStatus} (read : entry.ReadAs file)
    (trimmed : file.1.trim = file.1 ∧ ∀ oldPath ∈ file.2.oldPath, oldPath.trim = oldPath) : entry.Trimmed := by
  obtain ⟨isPath, isOld⟩ := trimmed
  cases entry with
  | single code score path => rwa [read.1] at isPath
  | renamed score oldPath path | copied score oldPath path =>
    rw [read.1] at isPath
    exact ⟨isOld _ read.2, isPath⟩

theorem Listed.trimmed {entry : NameStatusEntry} (listed : entry.Listed) : entry.Trimmed := by
  cases entry with
  | single code score path | renamed score oldPath path => exact listed
  | copied score oldPath path =>
    obtain ⟨rfl, isPath⟩ := listed
    exact ⟨isPath, isPath⟩

theorem forall₂_iff (entries : List NameStatusEntry) :
    List.Forall₂ ReadAs entries (parseGitDiffNameStatus (nameStatusOutput entries)) ↔ ∀ entry ∈ entries, entry.Listed := by
  rw [parseGitDiffNameStatus_eq]
  have each (trimmed : ∀ entry ∈ entries, entry.Trimmed) :
      List.Forall₂ ReadAs entries (entries.map file) ↔ ∀ entry ∈ entries, entry.Listed := by
    rw [forall₂_map_right_iff, forall₂_same]
    exact forall₂_congr fun entry isEntry => entry.readAs_file (trimmed entry isEntry)
  constructor
  · intro read
    have all : ∀ entry ∈ entries, entry.Trimmed := by
      intro entry isEntry
      obtain ⟨⟨i, within⟩, rfl⟩ := List.mem_iff_get.mp isEntry
      exact (read.get within (read.length_eq ▸ within)).trimmed (readNameStatuses_trimmed _ _ (List.get_mem _ _))
    rwa [readNameStatuses_entries all, each all] at read
  · intro listed
    have all : ∀ entry ∈ entries, entry.Trimmed := fun entry isEntry => (listed entry isEntry).trimmed
    rwa [readNameStatuses_entries all, each all]

end NameStatusEntry

/-- The porcelain listing is read as it should be exactly if each missing file has one of the three codes and each moved one
was moved in the index, the other listing if no path has blanks around it and nothing was copied. -/
theorem gitListings_iff (headers : List Plain) (statuses : List StatusEntry) (names : List NameStatusEntry) :
    ((∃ files, parseGitStatus (statusOutput headers statuses) = some files ∧
        List.Forall₂ StatusEntry.ReadAs (statuses.filter fun entry => !entry.isIgnored) files) ↔
      ∀ entry ∈ statuses, entry.Listed) ∧
    (List.Forall₂ NameStatusEntry.ReadAs names (parseGitDiffNameStatus (nameStatusOutput names)) ↔
      ∀ entry ∈ names, entry.Listed) := by
  refine ⟨?_, NameStatusEntry.forall₂_iff names⟩
  simp [StatusEntry.parseGitStatus_statusOutput, StatusEntry.forall₂_files_iff]

/-- A file whose change was staged before it was deleted is read as modified. -/
theorem deleted_read_as_modified : ¬ ∀ (headers : List Plain) (statuses : List StatusEntry),
    ∃ files, parseGitStatus (statusOutput headers statuses) = some files ∧
      List.Forall₂ StatusEntry.ReadAs (statuses.filter fun entry => !entry.isIgnored) files := by
  intro each
  let field : Field := ⟨['0'], by decide⟩
  obtain ⟨files, parsed, read⟩ := each [] [.ordinary ⟨'M', by decide⟩ ⟨'D', by decide⟩ ⟨List.replicate 6 field, rfl⟩
    ⟨['f'], by decide⟩]
  have isModified : parseGitStatus "1 MD 0 0 0 0 0 0 f\x00".toList = some [(['f'], .modified)] := by decide +kernel
  obtain rfl : [(['f'], .modified)] = files := Option.some.inj (isModified.symm.trans parsed)
  obtain ⟨⟨-, -, deleted⟩, -⟩ := List.forall₂_cons.mp read
  exact absurd (deleted (.inl rfl)) (by decide)

end Warp.CodeReview
