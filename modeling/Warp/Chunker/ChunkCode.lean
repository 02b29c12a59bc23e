import Warp.Chunker.Naive
import Warp.Chunker.SemanticRun

namespace Warp.Chunker

open Str List

def linesPerChunk : ℕ := 200

def avgCharPerLine : ℕ := 60

def maxChunkBytes : ℕ := linesPerChunk * avgCharPerLine

section Definitions

variable (parse : Str → Path → Option Node) (lineSpans : Str → List Naive.LineSpan) (code : Str) (path : Path)

/-- Nothing where no grammar parses the text. -/
def tryChunkCodeSemantically : Outcome (Option (List Fragment)) :=
  match parse code path with
  | none => .ok none
  | some root =>
    match chunkCode code maxChunkBytes path root with
    | .ok fragments => .ok (some fragments)
    | .error .maxTraversalDepthExceeded => .ok none
    | .error .panic => .error .panic

/-- No result where it panics. -/
def chunkFile : Option (List Fragment) :=
  match tryChunkCodeSemantically parse code path with
  | .ok (some fragments) => some fragments
  | .ok none => Naive.chunkCode (byteLen code + 1) code path maxChunkBytes linesPerChunk lineSpans
  | .error _ => none

end Definitions

variable {parse : Str → Path → Option Node} {lineSpans : Str → List Naive.LineSpan} {code : Str} {path : Path}

theorem chunkCode_slices {root : Node} {limit : ℕ} (wellFormed : root.WellFormed code) :
    chunkCode code limit path root = .error .maxTraversalDepthExceeded ∨
      ∃ fragments, chunkCode code limit path root = .ok fragments ∧
        (∀ fragment ∈ fragments, fragment.Valid code) ∧ fragments.Pairwise Apart := by
  unfold chunkCode
  rcases splitNode_spec code path limit root 0 wellFormed with ⟨_, failed⟩ | ⟨_, nodes, ran, _, tiling⟩
  · rw [failed]
    exact .inl rfl
  · obtain ⟨fragments, coalesces, coalesced⟩ := coalesceFragments_spec tiling.valid tiling.apart
    rw [ran]
    exact .inr ⟨fragments, coalesces, coalesced.valid, coalesced.apart⟩

theorem chunkFile_spec (parses : ∀ root, parse code path = some root → root.WellFormed code)
    (isSpans : Naive.LineSpans 0 code (lineSpans code)) :
    ∃ fragments, chunkFile parse lineSpans code path = some fragments ∧
      (∀ fragment ∈ fragments, fragment.Valid code) ∧ fragments.Pairwise Apart := by
  have naive : ∃ fragments, Naive.chunkCode (byteLen code + 1) code path maxChunkBytes linesPerChunk lineSpans = some fragments ∧
      (∀ fragment ∈ fragments, fragment.Valid code) ∧ fragments.Pairwise Apart := by
    have positive : 1 ≤ linesPerChunk := by decide
    have four : 4 ≤ maxChunkBytes := by decide
    obtain ⟨fragments, ran, chunked, -⟩ :=
      @Naive.chunkCode_chunked _ path _ _ _ _ isSpans positive four (Nat.lt_succ_self _)
    exact ⟨fragments, ran, chunked.valid, chunked.apart⟩
  unfold chunkFile tryChunkCodeSemantically
  cases parsed : parse code path with
  | none => exact naive
  | some root =>
    dsimp only
    rcases @chunkCode_slices code path root maxChunkBytes (parses root parsed) with failed | ⟨fragments, ran, slices⟩
    · rw [failed]
      exact naive
    · rw [ran]
      exact ⟨fragments, rfl, slices⟩

section FilePath

variable {limit : ℕ}

theorem append_filePath {fragment other joined : Fragment} (ran : fragment.append other code = .ok joined) :
    joined.filePath = fragment.filePath := by
  unfold Fragment.append at ran
  cases sliced : slice code fragment.startByteIndex other.endByteIndex with
  | error failure =>
    rw [sliced] at ran
    cases ran
  | ok content =>
    rw [sliced] at ran
    cases ran
    rfl

variable {fragments : List Fragment}

theorem coalesceFragments_filePath {result : List Fragment} (ofPath : ∀ fragment ∈ fragments, fragment.filePath = path)
    (ran : coalesceFragments fragments code limit = .ok result) : ∀ fragment ∈ result, fragment.filePath = path :=
  coalesceFragments_keeps (fun _ _ _ holds _ joins => (append_filePath joins).trans holds) ofPath ran

theorem splitChildren_filePath {children : List Node} {depth : ℕ}
    (nested : ∀ child ∈ children, ∀ depth fragments, splitNode code limit path depth child = .ok fragments → ∀ fragment ∈ fragments, fragment.filePath = path)
    {current : Fragment} {result : List Fragment} (ofCurrent : current.filePath = path)
    (ofPath : ∀ fragment ∈ fragments, fragment.filePath = path)
    (ran : splitChildren code limit path depth current fragments children = .ok result) :
    ∀ fragment ∈ result, fragment.filePath = path := by
  induction children generalizing current fragments with
  | nil =>
    rw [splitChildren] at ran
    cases ran
    exact List.forall_mem_append.mpr ⟨ofPath, List.forall_mem_singleton.mpr ofCurrent⟩
  | cons child children ih =>
    obtain ⟨ofChild, ofChildren⟩ := List.forall_mem_cons.mp nested
    have withCurrent : ∀ fragment ∈ fragments ++ [current], fragment.filePath = path :=
      List.forall_mem_append.mpr ⟨ofPath, List.forall_mem_singleton.mpr ofCurrent⟩
    rw [splitChildren] at ran
    split at ran
    · cases split : splitNode code limit path (depth + 1) child with
      | error failure =>
        rw [split] at ran
        cases ran
      | ok inner =>
        rw [split] at ran
        exact ih ofChildren rfl (List.forall_mem_append.mpr ⟨withCurrent, ofChild _ _ split⟩) ran
    · split at ran
      · cases appended : (Fragment.fromNodeStart child path).append (.fromNodeEnd child path) code with
        | error failure =>
          rw [appended] at ran
          cases ran
        | ok fresh =>
          rw [appended] at ran
          exact ih ofChildren (append_filePath appended) withCurrent ran
      · cases sliced : slice code current.startByteIndex child.endByte with
        | error failure =>
          rw [sliced] at ran
          cases ran
        | ok content =>
          rw [sliced] at ran
          let extended : Fragment :=
            { current with endLine := child.endRow, endByteIndex := child.endByte, content := content }
          have ofExtended : extended.filePath = path := ofCurrent
          exact ih ofChildren ofExtended ofPath ran

theorem splitNode_filePath (root : Node) : ∀ depth fragments, splitNode code limit path depth root = .ok fragments →
    ∀ fragment ∈ fragments, fragment.filePath = path := by
  induction root using Node.induction with
  | step root ih =>
    intro depth fragments ran
    obtain ⟨startByte, endByte, startRow, endRow, children⟩ := root
    unfold splitNode at ran
    split at ran
    · cases ran
    · exact splitChildren_filePath ih rfl (forall_mem_nil _) ran

theorem chunkCode_filePath {root : Node} (ran : chunkCode code limit path root = .ok fragments) :
    ∀ fragment ∈ fragments, fragment.filePath = path := by
  unfold chunkCode at ran
  cases split : splitNode code limit path 0 root with
  | error failure =>
    rw [split] at ran
    cases ran
  | ok nodes =>
    rw [split] at ran
    exact coalesceFragments_filePath (splitNode_filePath root _ _ split) ran

namespace Naive

variable {fuel size : ℕ}

theorem exists_of_mapM {α β : Type} {f : α → Option β} {items : List α} {made : List β} (ran : items.mapM f = some made) :
    ∀ value ∈ made, ∃ item ∈ items, f item = some value := by
  induction items generalizing made with
  | nil =>
    cases ran
    nofun
  | cons item items ih =>
    rw [mapM_cons] at ran
    cases first : f item with
    | none =>
      rw [first] at ran
      cases ran
    | some value =>
      cases rest : items.mapM f with
      | none =>
        rw [first, rest] at ran
        cases ran
      | some values =>
        rw [first, rest] at ran
        cases ran
        refine List.forall_mem_cons.mpr ⟨⟨item, mem_cons_self, first⟩, fun value member => ?_⟩
        obtain ⟨item, isItem, found⟩ := ih rest value member
        exact ⟨item, mem_cons_of_mem _ isItem, found⟩

variable {fragments : List Fragment}

theorem splitLine_filePath {lineNumber lineEnd currentStart : ℕ}
    (ran : splitLine code path limit lineNumber lineEnd fuel currentStart = some fragments) :
    ∀ fragment ∈ fragments, fragment.filePath = path := by
  induction fuel generalizing currentStart fragments with
  | zero => cases ran
  | succ fuel ih =>
    rw [splitLine] at ran
    split at ran
    · obtain ⟨content, -, ran⟩ := Option.bind_eq_some_iff.mp ran
      obtain ⟨rest, ranRest, rfl⟩ := Option.map_eq_some_iff.mp ran
      exact List.forall_mem_cons.mpr ⟨rfl, ih ranRest⟩
    · cases ran
      simp

theorem chunkLineByBytes_filePath {line : LineSpan × ℕ}
    (ran : chunkLineByBytes fuel code path limit line = some fragments) :
    ∀ fragment ∈ fragments, fragment.filePath = path := by
  obtain ⟨content, -, ran⟩ := Option.bind_eq_some_iff.mp ran
  split at ran
  · cases ran
    exact List.forall_mem_singleton.mpr rfl
  · exact splitLine_filePath ran

theorem chunkLines_filePath {chunk : List (LineSpan × ℕ)}
    (ran : chunkLines fuel code path limit chunk = some fragments) :
    ∀ fragment ∈ fragments, fragment.filePath = path := by
  obtain ⟨⟨startRange, startLine⟩, -, ran⟩ := Option.bind_eq_some_iff.mp ran
  obtain ⟨⟨endRange, endLine⟩, -, ran⟩ := Option.bind_eq_some_iff.mp ran
  dsimp only at ran
  split at ran
  · obtain ⟨made, each, coalesces⟩ := Option.bind_eq_some_iff.mp ran
    cases coalesced : coalesceFragments made.flatten code limit with
    | error failure =>
      rw [coalesced] at coalesces
      cases coalesces
    | ok result =>
      rw [coalesced] at coalesces
      cases coalesces
      refine coalesceFragments_filePath (fun fragment member => ?_) coalesced
      obtain ⟨part, isPart, inPart⟩ := List.mem_flatten.mp member
      obtain ⟨line, -, found⟩ := exists_of_mapM each part isPart
      exact chunkLineByBytes_filePath found fragment inPart
  · obtain ⟨content, -, rfl⟩ := Option.map_eq_some_iff.mp ran
    exact List.forall_mem_singleton.mpr rfl

theorem chunkCode_filePath (ran : chunkCode fuel code path limit size lineSpans = some fragments) :
    ∀ fragment ∈ fragments, fragment.filePath = path := by
  unfold chunkCode at ran
  split at ran
  · cases ran
  · obtain ⟨made, each, rfl⟩ := Option.map_eq_some_iff.mp ran
    intro fragment member
    obtain ⟨part, isPart, inPart⟩ := List.mem_flatten.mp member
    obtain ⟨chunk, -, found⟩ := exists_of_mapM each part isPart
    exact chunkLines_filePath found fragment inPart

end Naive

theorem chunkFile_filePath (ran : chunkFile parse lineSpans code path = some fragments) :
    ∀ fragment ∈ fragments, fragment.filePath = path := by
  unfold chunkFile tryChunkCodeSemantically at ran
  cases parsed : parse code path with
  | none =>
    rw [parsed] at ran
    exact Naive.chunkCode_filePath ran
  | some root =>
    rw [parsed] at ran
    dsimp only at ran
    cases chunked : chunkCode code maxChunkBytes path root with
    | ok fragments =>
      rw [chunked] at ran
      cases ran
      exact chunkCode_filePath chunked
    | error failure =>
      rw [chunked] at ran
      cases failure with
      | panic => cases ran
      | maxTraversalDepthExceeded => exact Naive.chunkCode_filePath ran

end FilePath

section Lines

open Naive

/-- The line spans from some position on, with the part of the first line that has been read. -/
def lineSpansFrom (start : ℕ) (line : Str) : Str → List LineSpan
  | [] => if line = [] then [] else [⟨start, start + byteLen line⟩]
  | char :: rest =>
    if char = '\n' then
      let content := if line.getLast? = some '\r' then line.dropLast else line
      ⟨start, start + byteLen content⟩ :: lineSpansFrom (start + byteLen line + 1) [] rest
    else lineSpansFrom start (line ++ [char]) rest

theorem lineSpansFrom_spec {rest : Str} (start : ℕ) {line : Str} (plain : '\n' ∉ line) :
    LineSpans start (line ++ rest) (lineSpansFrom start line rest) := by
  induction rest generalizing start line with
  | nil =>
    rw [append_nil, lineSpansFrom]
    split
    · rename_i empty
      subst empty
      exact .nil
    · exact .last plain
  | cons char rest ih =>
    rw [lineSpansFrom]
    by_cases feed : char = '\n'
    · subst feed
      rw [if_pos rfl]
      have after : LineSpans (start + byteLen line + 1) rest (lineSpansFrom (start + byteLen line + 1) [] rest) :=
        ih _ not_mem_nil
      by_cases carriage : line.getLast? = some '\r'
      · obtain ⟨content, rfl⟩ := List.getLast?_eq_some_iff.mp carriage
        have size : start + byteLen content + byteLen ['\r', '\n'] = start + byteLen (content ++ ['\r']) + 1 := by
          rw [byteLen_append, Nat.add_assoc, Nat.add_assoc, Nat.add_assoc]
          rfl
        have parts : content ++ ['\r'] ++ '\n' :: rest = content ++ ['\r', '\n'] ++ rest := by simp
        simp only [carriage, if_true, dropLast_concat]
        rw [parts]
        refine .terminated (fun inside => plain (mem_append_left _ inside)) (.inr rfl) ?_
        rw [size]
        exact after
      · have parts : line ++ '\n' :: rest = line ++ ['\n'] ++ rest := by simp
        simp only [carriage, if_false]
        rw [parts]
        exact .terminated plain (.inl ⟨rfl, carriage⟩) after
    · rw [if_neg feed, append_cons]
      exact ih start (by simp [plain, Ne.symm feed])

end Lines

end Warp.Chunker
