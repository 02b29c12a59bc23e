import Warp.Editor.Content.BufferText

namespace Warp.Editor.Content

open SumTree Str List

def floorCharBoundary (text : Str) : ℕ → ℕ
  | 0 => 0
  | splitIx + 1 => if IsBoundary text (splitIx + 1) then splitIx + 1 else floorCharBoundary text splitIx

def fillFragment (text : Str) : BufferText → Option (BufferText × Str)
  | .text fragment _ =>
    let splitIx :=
      if byteLen fragment + byteLen text ≤ textFragmentSize then byteLen text
      else floorCharBoundary text (min (textFragmentSize - byteLen fragment) (byteLen text))
    (splitBytes text splitIx).map fun parts =>
      (.text (fragment ++ parts.1) ((fragment ++ parts.1).length % 256), parts.2)
  | item => some (item, text)

/-- The fragments of a text, which have no result with turns of the loop left to take. -/
def splitFragments : ℕ → Str → Option (List BufferText)
  | 0, _ => none
  | fuel + 1, text =>
    if text = [] then some []
    else
      (splitBytes text (floorCharBoundary text (min (byteLen text) textFragmentSize))).bind fun parts =>
        (splitFragments fuel parts.2).map fun fragments => .text parts.1 (parts.1.length % 256) :: fragments

section Append

variable (build : Build)

/-- The first line goes on in the last fragment of the tree. -/
def fillLast (self : Node BufferText BufferSummary) (text : Str) : Option (Node BufferText BufferSummary × Str) :=
  if self.isEmpty then some (self, text)
  else do
    match ← self.last with
    | some item => do
      let (filled, remainder) ← fillFragment text item
      let self ← self.updateLast fun _ => filled
      some (self, remainder)
    | none => some (self, text)

def lineFragments (trailingNewline : Bool) : List Str → Option (List BufferText)
  | [] => some []
  | text :: lines =>
    (splitFragments (text.length + 1) text).bind fun fragments =>
      (lineFragments trailingNewline lines).map fun rest =>
        fragments ++ (if lines ≠ [] ∨ trailingNewline then [.newline] else []) ++ rest

def appendStr (self : Node BufferText BufferSummary) (s : Str) : Option (Node BufferText BufferSummary) :=
  match lines s with
  | [] => self.extend build []
  | line :: lines => do
    let (self, text) ← fillLast self line
    let newFragments ← lineFragments (s.getLast? = some '\n') (text :: lines)
    self.extend build newFragments

end Append

section Boundaries

variable {text : Str} {stop : ℕ}

theorem floorCharBoundary_spec (text : Str) (stop : ℕ) : IsBoundary text (floorCharBoundary text stop) ∧
    floorCharBoundary text stop ≤ stop ∧ ∀ next, IsBoundary text next → next ≤ stop → next ≤ floorCharBoundary text stop := by
  induction stop with
  | zero => exact ⟨⟨[], text, rfl, rfl⟩, Nat.le_refl _, fun _ _ le => le⟩
  | succ stop ih =>
    rw [floorCharBoundary]
    by_cases boundary : IsBoundary text (stop + 1)
    · rw [if_pos boundary]
      exact ⟨boundary, Nat.le_refl _, fun _ _ le => le⟩
    · rw [if_neg boundary]
      obtain ⟨isBoundary, le, greatest⟩ := ih
      refine ⟨isBoundary, by omega, fun next nextBoundary nextLe => greatest next nextBoundary ?_⟩
      have : next ≠ stop + 1 := fun same => boundary (same ▸ nextBoundary)
      omega

theorem exists_floor (text : Str) (stop : ℕ) : ∃ before after, splitBytes text (floorCharBoundary text stop) = some (before, after) ∧
    text = before ++ after ∧ byteLen before ≤ stop ∧
      (min (byteLen text) 4 ≤ stop → text ≠ [] → after.length < text.length) := by
  obtain ⟨⟨before, after, parts, len⟩, le, greatest⟩ := floorCharBoundary_spec text stop
  refine ⟨before, after, splitBytes_eq_some_iff.mpr ⟨parts, len⟩, parts, by omega, fun room some => ?_⟩
  obtain ⟨c, rest, rfl⟩ := exists_cons_of_ne_nil some
  have positive := c.utf8Size_pos
  have short := c.utf8Size_le_four
  rw [byteLen_cons] at room
  have first := greatest c.utf8Size ⟨[c], rest, rfl, by simp⟩ (by omega)
  have filled : before ≠ [] := by
    rintro rfl
    rw [← len] at first
    exact absurd first (by simp; omega)
  have := List.length_pos_iff.mpr filled
  rw [parts, length_append]
  omega

end Boundaries

section Fragments

variable {text fragment : Str} {item : BufferText}

theorem wellFormed_text (small : byteLen fragment ≤ textFragmentSize) (plain : '\n' ∉ fragment) :
    (BufferText.text fragment (fragment.length % 256)).WellFormed := by
  have := length_le_byteLen fragment
  refine ⟨small, ?_, plain⟩
  unfold textFragmentSize at small
  omega

theorem fillFragment_spec (wellFormed : item.WellFormed) (plain : '\n' ∉ text) :
    ∃ filled remainder, fillFragment text item = some (filled, remainder) ∧ filled.WellFormed ∧ '\n' ∉ remainder ∧
      filled.symbols ++ remainder.map .char = item.symbols ++ text.map .char := by
  cases item with
  | text fragment charCount =>
    obtain ⟨small, -, plainFragment⟩ := wellFormed
    obtain ⟨before, after, split, parts, fits⟩ : ∃ before after, splitBytes text
        (if byteLen fragment + byteLen text ≤ textFragmentSize then byteLen text
          else floorCharBoundary text (min (textFragmentSize - byteLen fragment) (byteLen text))) = some (before, after) ∧
        text = before ++ after ∧ byteLen fragment + byteLen before ≤ textFragmentSize := by
      by_cases whole : byteLen fragment + byteLen text ≤ textFragmentSize
      · rw [if_pos whole]
        exact ⟨text, [], splitBytes_eq_some_iff.mpr ⟨(append_nil _).symm, rfl⟩, (append_nil _).symm, whole⟩
      · rw [if_neg whole]
        obtain ⟨before, after, split, parts, le, -⟩ :=
          exists_floor text (min (textFragmentSize - byteLen fragment) (byteLen text))
        exact ⟨before, after, split, parts, by omega⟩
    subst parts
    rw [mem_append, not_or] at plain
    refine ⟨.text (fragment ++ before) ((fragment ++ before).length % 256), after, ?_, ?_, plain.2, ?_⟩
    · unfold fillFragment
      simp only [split, Option.map_some]
    · refine wellFormed_text (by rw [byteLen_append]; exact fits) ?_
      rw [mem_append, not_or]
      exact ⟨plainFragment, plain.1⟩
    · simp [BufferText.symbols]
  | _ => exact ⟨_, text, rfl, trivial, plain, rfl⟩

theorem splitFragments_spec {fuel : ℕ} (turns : text.length < fuel) (plain : '\n' ∉ text) :
    ∃ fragments, splitFragments fuel text = some fragments ∧ (∀ item ∈ fragments, item.WellFormed) ∧
      symbolsOf fragments = text.map .char := by
  induction fuel generalizing text with
  | zero => omega
  | succ fuel ih =>
    rw [splitFragments]
    by_cases empty : text = []
    · subst empty
      exact ⟨[], if_pos rfl, nofun, rfl⟩
    · obtain ⟨before, after, split, parts, le, shorter⟩ := exists_floor text (min (byteLen text) textFragmentSize)
      have shorter := shorter (by unfold textFragmentSize; omega) empty
      rw [if_neg empty, split]
      have plainParts := plain
      rw [parts, mem_append, not_or] at plainParts
      obtain ⟨fragments, ran, wellFormed, symbols⟩ := ih (by omega) plainParts.2
      refine ⟨.text before (before.length % 256) :: fragments, ?_, ?_, ?_⟩
      · rw [Option.bind_some, ran]
        rfl
      · exact List.forall_mem_cons.mpr ⟨wellFormed_text (by omega) plainParts.1, wellFormed⟩
      · rw [symbolsOf_cons, symbols, parts, map_append]
        rfl

def lineSymbols (trailingNewline : Bool) : List Str → List Symbol
  | [] => []
  | line :: lines =>
    line.map .char ++ (if lines ≠ [] ∨ trailingNewline then [.item .newline] else []) ++ lineSymbols trailingNewline lines

theorem lineFragments_spec (trailingNewline : Bool) {lines : List Str} (plain : ∀ line ∈ lines, '\n' ∉ line) :
    ∃ fragments, lineFragments trailingNewline lines = some fragments ∧ (∀ item ∈ fragments, item.WellFormed) ∧
      symbolsOf fragments = lineSymbols trailingNewline lines := by
  induction lines with
  | nil => exact ⟨[], rfl, nofun, rfl⟩
  | cons line lines ih =>
    obtain ⟨plainLine, plain⟩ := List.forall_mem_cons.mp plain
    obtain ⟨fragments, ran, wellFormed, symbols⟩ := splitFragments_spec (Nat.lt_succ_self _) plainLine
    obtain ⟨rest, ranRest, restFormed, restSymbols⟩ := ih plain
    refine ⟨fragments ++ (if lines ≠ [] ∨ trailingNewline then [.newline] else []) ++ rest, ?_, ?_, ?_⟩
    · rw [lineFragments, ran, Option.bind_some, ranRest]
      rfl
    · rw [forall_mem_append, forall_mem_append]
      refine ⟨⟨wellFormed, ?_⟩, restFormed⟩
      split
      · exact List.forall_mem_singleton.mpr trivial
      · nofun
    · rw [symbolsOf_append, symbolsOf_append, symbols, restSymbols, lineSymbols]
      congr 2
      split <;> rfl

end Fragments

section Tree

variable {build : Build} {self : Node BufferText BufferSummary} {text : Str}

theorem last_spec (wf : self.WF build) : self.last = some self.toList.getLast? := by
  obtain ⟨leaf, items, found, leafItems, final⟩ := Node.rightmostLeaf_spec wf
  simp [Node.last, found, leafItems, final]

theorem fillLast_spec (wf : self.WF build) (wellFormed : ∀ item ∈ self.toList, item.WellFormed) (plain : '\n' ∉ text) :
    ∃ tree remainder, fillLast self text = some (tree, remainder) ∧ tree.WF build ∧
      (∀ item ∈ tree.toList, item.WellFormed) ∧ '\n' ∉ remainder ∧
      symbolsOf tree.toList ++ remainder.map .char = symbolsOf self.toList ++ text.map .char := by
  unfold fillLast
  by_cases empty : self.toList = []
  · rw [if_pos (wf.isEmpty_iff.mpr empty)]
    exact ⟨self, text, rfl, wf, wellFormed, plain, rfl⟩
  · rw [if_neg fun isEmpty => empty (wf.isEmpty_iff.mp isEmpty), last_spec wf]
    obtain ⟨init, item, parts⟩ := (eq_nil_or_concat self.toList).resolve_left empty
    rw [concat_eq_append] at parts
    rw [parts, forall_mem_append, forall_mem_singleton] at wellFormed
    obtain ⟨filled, remainder, fills, filledFormed, plainRest, symbols⟩ := fillFragment_spec wellFormed.2 plain
    obtain ⟨tree, updated, treeWF, items⟩ := Node.updateLast_spec (fun _ => filled) wf
    rw [parts, modifyLast_concat] at items
    refine ⟨tree, remainder, ?_, treeWF, ?_, plainRest, ?_⟩
    · simp [parts, fills, updated]
    · rw [items, forall_mem_append, forall_mem_singleton]
      exact ⟨wellFormed.1, filledFormed⟩
    · rw [items, parts, symbolsOf_append, symbolsOf_append, append_assoc, append_assoc]
      simpa [symbolsOf] using symbols

theorem appendStr_spec (wf : self.WF build) (wellFormed : ∀ item ∈ self.toList, item.WellFormed) (s : Str) :
    ∃ tree, appendStr build self s = some tree ∧ tree.WF build ∧ (∀ item ∈ tree.toList, item.WellFormed) ∧
      symbolsOf tree.toList = symbolsOf self.toList ++ lineSymbols (s.getLast? = some '\n') (lines s) := by
  have plain : ∀ line ∈ lines s, '\n' ∉ line := lines_plain
  unfold appendStr
  cases read : lines s with
  | nil =>
    obtain ⟨tree, extended, treeWF, items⟩ := Node.extend_spec wf []
    rw [append_nil] at items
    refine ⟨tree, extended, treeWF, by rw [items]; exact wellFormed, ?_⟩
    rw [items, lineSymbols, append_nil]
  | cons line lines =>
    rw [read] at plain
    obtain ⟨plainLine, plain⟩ := List.forall_mem_cons.mp plain
    obtain ⟨filled, text, fills, filledWF, filledFormed, plainText, symbols⟩ := fillLast_spec wf wellFormed plainLine
    obtain ⟨fragments, ran, fragmentsFormed, added⟩ :=
      lineFragments_spec (s.getLast? = some '\n') (List.forall_mem_cons.mpr ⟨plainText, plain⟩)
    obtain ⟨tree, extended, treeWF, items⟩ := Node.extend_spec filledWF fragments
    refine ⟨tree, ?_, treeWF, ?_, ?_⟩
    · simp [fills, ran, extended]
    · rw [items, forall_mem_append]
      exact ⟨filledFormed, fragmentsFormed⟩
    · rw [items, symbolsOf_append, added, lineSymbols, lineSymbols]
      simp only [← append_assoc, symbols]

theorem appendStr_plain (wf : self.WF build) (wellFormed : ∀ item ∈ self.toList, item.WellFormed) (plain : '\n' ∉ text) :
    ∃ tree, appendStr build self text = some tree ∧ tree.WF build ∧ (∀ item ∈ tree.toList, item.WellFormed) ∧
      symbolsOf tree.toList = symbolsOf self.toList ++ text.map .char := by
  obtain ⟨tree, ran, treeWF, formed, symbols⟩ := appendStr_spec wf wellFormed text
  refine ⟨tree, ran, treeWF, formed, ?_⟩
  have noFeed : text.getLast? ≠ some '\n' := fun last => plain (mem_of_getLast? last)
  rw [symbols, lines_line plain]
  by_cases empty : text = []
  · rw [if_pos empty, empty]
    rfl
  · rw [if_neg empty]
    simp [lineSymbols, noFeed]

end Tree

end Warp.Editor.Content
