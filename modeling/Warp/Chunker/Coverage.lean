import Warp.Chunker.Semantic

namespace Warp.Chunker

open Str List

section Trees

theorem Node.induction {motive : Node → Prop} (step : ∀ node : Node, (∀ child ∈ node.children, motive child) → motive node)
    (node : Node) : motive node := by
  refine Node.rec (motive_1 := motive) (motive_2 := fun children => ∀ child ∈ children, motive child) ?_ ?_ ?_ node
  · intro startByte endByte startRow endRow children ih
    exact step (.node startByte endByte startRow endRow children) ih
  · nofun
  · intro child children childHolds childrenHold
    exact List.forall_mem_cons.mpr ⟨childHolds, childrenHold⟩

variable (code : Str)

mutual

/-- The byte ranges of a tree over a text: on boundaries of characters, and children in order inside of their parent. -/
def Node.WellFormed : Node → Prop
  | .node startByte endByte _ _ children =>
    IsBoundary code startByte ∧ IsBoundary code endByte ∧ childrenWellFormed startByte endByte children

def childrenWellFormed (low high : ℕ) : List Node → Prop
  | [] => low ≤ high
  | child :: children => low ≤ child.startByte ∧ child.WellFormed ∧ childrenWellFormed child.endByte high children

end

mutual

def Node.decidableWellFormed : (node : Node) → Decidable (node.WellFormed code)
  | .node startByte endByte _ _ children =>
    have := decidableChildrenWellFormed startByte endByte children
    inferInstanceAs (Decidable
      (IsBoundary code startByte ∧ IsBoundary code endByte ∧ childrenWellFormed code startByte endByte children))

def decidableChildrenWellFormed (low high : ℕ) :
    (children : List Node) → Decidable (childrenWellFormed code low high children)
  | [] => inferInstanceAs (Decidable (low ≤ high))
  | child :: children =>
    have := child.decidableWellFormed
    have := decidableChildrenWellFormed child.endByte high children
    inferInstanceAs (Decidable
      (low ≤ child.startByte ∧ child.WellFormed code ∧ childrenWellFormed code child.endByte high children))

end

instance (node : Node) : Decidable (node.WellFormed code) := node.decidableWellFormed code

mutual

/-- The tokens of a tree: its nodes without children. -/
def Node.leaves : Node → List Node
  | .node startByte endByte startRow endRow children =>
    if children.isEmpty then [.node startByte endByte startRow endRow children] else childrenLeaves children

def childrenLeaves : List Node → List Node
  | [] => []
  | child :: children => child.leaves ++ childrenLeaves children

end

mutual

def Node.GapsFit (maxBytesPerChunk : ℕ) : Node → Prop
  | .node startByte _ _ _ children => childrenGapsFit maxBytesPerChunk startByte startByte children

def childrenGapsFit (maxBytesPerChunk runStart runStop : ℕ) : List Node → Prop
  | [] => True
  | child :: children =>
    if maxBytesPerChunk < child.size then
      child.GapsFit maxBytesPerChunk ∧ childrenGapsFit maxBytesPerChunk child.endByte child.endByte children
    else if maxBytesPerChunk < child.size + (runStop - runStart) then
      childrenGapsFit maxBytesPerChunk child.startByte child.endByte children
    else
      child.endByte - runStart ≤ maxBytesPerChunk ∧ childrenGapsFit maxBytesPerChunk runStart child.endByte children

end

mutual

def Node.largeDepth (maxBytesPerChunk : ℕ) : Node → ℕ
  | .node _ _ _ _ children => childrenLargeDepth maxBytesPerChunk children

def childrenLargeDepth (maxBytesPerChunk : ℕ) : List Node → ℕ
  | [] => 0
  | child :: children =>
    max (if maxBytesPerChunk < child.size then child.largeDepth maxBytesPerChunk + 1 else 0)
      (childrenLargeDepth maxBytesPerChunk children)

end

variable {code} {node : Node} {children : List Node} {low high : ℕ}

theorem Node.wellFormed_iff : node.WellFormed code ↔
    IsBoundary code node.startByte ∧ IsBoundary code node.endByte ∧
      childrenWellFormed code node.startByte node.endByte node.children := by
  cases node
  unfold WellFormed
  rfl

theorem childrenWellFormed_le (wellFormed : childrenWellFormed code low high children)
    (inOrder : ∀ child ∈ children, child.WellFormed code → child.startByte ≤ child.endByte) : low ≤ high := by
  induction children generalizing low with
  | nil => exact wellFormed
  | cons child children ih =>
    unfold childrenWellFormed at wellFormed
    obtain ⟨after, childFormed, rest⟩ := wellFormed
    obtain ⟨childOrdered, restOrdered⟩ := List.forall_mem_cons.mp inOrder
    have := ih rest restOrdered
    have := childOrdered childFormed
    omega

theorem Node.WellFormed.le (wellFormed : node.WellFormed code) : node.startByte ≤ node.endByte := by
  induction node using Node.induction with
  | step node ih =>
    obtain ⟨-, -, inside⟩ := Node.wellFormed_iff.mp wellFormed
    exact childrenWellFormed_le inside ih

theorem childrenWellFormed.le (wellFormed : childrenWellFormed code low high children) : low ≤ high :=
  childrenWellFormed_le wellFormed fun _ _ childFormed => childFormed.le

theorem Node.leaves_eq (node : Node) :
    node.leaves = if node.children.isEmpty then [node] else childrenLeaves node.children := by
  cases node
  unfold leaves
  rfl

def Node.Within (low high : ℕ) (leaf : Node) : Prop :=
  low ≤ leaf.startByte ∧ leaf.startByte ≤ leaf.endByte ∧ leaf.endByte ≤ high

theorem childrenLeaves_within (wellFormed : childrenWellFormed code low high children)
    (inside : ∀ child ∈ children, child.WellFormed code → ∀ leaf ∈ child.leaves,
      leaf.Within child.startByte child.endByte) : ∀ leaf ∈ childrenLeaves children, leaf.Within low high := by
  induction children generalizing low with
  | nil =>
    intro leaf member
    unfold childrenLeaves at member
    cases member
  | cons child children ih =>
    unfold childrenWellFormed at wellFormed
    obtain ⟨after, childFormed, rest⟩ := wellFormed
    obtain ⟨childInside, restInside⟩ := List.forall_mem_cons.mp inside
    have ordered := childFormed.le
    have restOrdered := rest.le
    intro leaf member
    unfold childrenLeaves at member
    rcases List.mem_append.mp member with ofChild | ofRest
    · obtain ⟨first, second, third⟩ := childInside childFormed leaf ofChild
      exact ⟨by omega, second, by omega⟩
    · obtain ⟨first, second, third⟩ := ih rest restInside leaf ofRest
      exact ⟨by omega, second, third⟩

theorem Node.WellFormed.leaves_within (wellFormed : node.WellFormed code) :
    ∀ leaf ∈ node.leaves, leaf.Within node.startByte node.endByte := by
  induction node using Node.induction with
  | step node ih =>
    intro leaf member
    rw [Node.leaves_eq] at member
    obtain ⟨-, -, inside⟩ := Node.wellFormed_iff.mp wellFormed
    by_cases isLeaf : node.children.isEmpty = true
    · rw [if_pos isLeaf] at member
      rw [List.mem_singleton.mp member]
      exact ⟨Nat.le_refl _, wellFormed.le, Nat.le_refl _⟩
    · rw [if_neg isLeaf] at member
      exact childrenLeaves_within inside ih leaf member

end Trees

section Fragments

variable {code : Str} {fragment other : Fragment} {fragments : List Fragment} {maxBytesPerChunk : ℕ}

def Fragment.Valid (code : Str) (fragment : Fragment) : Prop :=
  byteSlice code fragment.startByteIndex fragment.endByteIndex = some fragment.content

def Apart (first second : Fragment) : Prop := first.endByteIndex ≤ second.startByteIndex

instance : DecidableRel Apart := fun first second =>
  inferInstanceAs (Decidable (first.endByteIndex ≤ second.startByteIndex))

instance : Decidable (fragment.Valid code) := inferInstanceAs (Decidable (_ = _))

theorem Fragment.Valid.size_eq (valid : fragment.Valid code) :
    fragment.startByteIndex + fragment.size = fragment.endByteIndex := byteLen_of_byteSlice valid

theorem slice_eq {start stop : ℕ} {content : Str} (sliced : byteSlice code start stop = some content) :
    slice code start stop = .ok content := by
  unfold slice
  rw [sliced]

theorem Fragment.Valid.append (valid : fragment.Valid code) (otherValid : other.Valid code)
    (inOrder : fragment.startByteIndex ≤ other.endByteIndex) :
    ∃ joined, fragment.append other code = .ok joined ∧ joined.Valid code ∧
      joined.startByteIndex = fragment.startByteIndex ∧ joined.endByteIndex = other.endByteIndex := by
  obtain ⟨content, sliced⟩ :=
    exists_byteSlice (isBoundary_of_byteSlice valid).1 (isBoundary_of_byteSlice otherValid).2 inOrder
  refine ⟨{ fragment with endLine := other.endLine, endByteIndex := other.endByteIndex, content := content }, ?_,
    sliced, rfl, rfl⟩
  unfold Fragment.append
  rw [slice_eq sliced]
  rfl

section Keeps

variable {holds : Fragment → Prop}
  (joins : ∀ fragment other joined : Fragment, holds fragment → holds other → fragment.append other code = .ok joined → holds joined)

include joins

theorem coalesceStep_keeps {acc result : List Fragment} (isHeld : holds fragment) (before : ∀ item ∈ acc, holds item)
    (ran : coalesceStep code maxBytesPerChunk fragment acc = .ok result) : ∀ item ∈ result, holds item := by
  cases acc with
  | nil =>
    cases ran
    exact List.forall_mem_singleton.mpr isHeld
  | cons lastItem items =>
    obtain ⟨lastHolds, itemsHold⟩ := List.forall_mem_cons.mp before
    unfold coalesceStep at ran
    dsimp only at ran
    cases sliced : slice code fragment.startByteIndex lastItem.endByteIndex with
    | error failure =>
      rw [sliced] at ran
      cases ran
    | ok content =>
      rw [sliced] at ran
      change (if byteLen content ≤ maxBytesPerChunk then
        (fragment.append lastItem code).bind fun fragment => .ok (fragment :: items)
        else .ok (fragment :: lastItem :: items)) = .ok result at ran
      split at ran
      · cases appended : fragment.append lastItem code with
        | error failure =>
          rw [appended] at ran
          cases ran
        | ok joined =>
          rw [appended] at ran
          cases ran
          exact List.forall_mem_cons.mpr ⟨joins _ _ _ isHeld lastHolds appended, itemsHold⟩
      · cases ran
        exact List.forall_mem_cons.mpr ⟨isHeld, before⟩

theorem coalesceFragments_keeps {result : List Fragment} (areHeld : ∀ fragment ∈ fragments, holds fragment)
    (ran : coalesceFragments fragments code maxBytesPerChunk = .ok result) : ∀ item ∈ result, holds item := by
  unfold coalesceFragments at ran
  induction fragments generalizing result with
  | nil =>
    cases ran
    nofun
  | cons fragment fragments ih =>
    obtain ⟨isHeld, areHeld⟩ := List.forall_mem_cons.mp areHeld
    rw [foldrM_cons] at ran
    cases folded : fragments.foldrM (coalesceStep code maxBytesPerChunk) [] with
    | error failure =>
      rw [folded] at ran
      cases ran
    | ok acc =>
      rw [folded] at ran
      exact coalesceStep_keeps joins isHeld (ih areHeld folded) ran

end Keeps

/-- What coalescing leaves of fragments: each of them lies in one of the result, and each of the result reaches from
the start of one to the end of one. -/
structure Coalesced (code : Str) (maxBytesPerChunk : ℕ) (fragments result : List Fragment) : Prop where
  valid : ∀ fragment ∈ result, fragment.Valid code
  apart : result.Pairwise Apart
  covers : ∀ fragment ∈ fragments, ∃ whole ∈ result,
    whole.startByteIndex ≤ fragment.startByteIndex ∧ fragment.endByteIndex ≤ whole.endByteIndex
  ends : ∀ whole ∈ result, ∃ first ∈ fragments, ∃ last ∈ fragments,
    whole.startByteIndex = first.startByteIndex ∧ whole.endByteIndex = last.endByteIndex ∧
      (first = last ∨ whole.size ≤ maxBytesPerChunk)

theorem coalesceFragments_spec (valid : ∀ fragment ∈ fragments, fragment.Valid code)
    (apart : fragments.Pairwise Apart) :
    ∃ result, coalesceFragments fragments code maxBytesPerChunk = .ok result ∧
      Coalesced code maxBytesPerChunk fragments result := by
  unfold coalesceFragments
  induction fragments with
  | nil => exact ⟨[], rfl, nofun, List.Pairwise.nil, nofun, nofun⟩
  | cons fragment fragments ih =>
    obtain ⟨fragmentValid, valid⟩ := List.forall_mem_cons.mp valid
    obtain ⟨before, apart⟩ := List.pairwise_cons.mp apart
    obtain ⟨acc, ran, coalesced⟩ := ih valid apart
    have fragmentSize := fragmentValid.size_eq
    rw [foldrM_cons, ran]
    change ∃ result, coalesceStep code maxBytesPerChunk fragment acc = .ok result ∧ _
    cases acc with
    | nil =>
      refine ⟨[fragment], rfl, ?_, pairwise_singleton _ _, ?_, ?_⟩
      · exact List.forall_mem_singleton.mpr fragmentValid
      · intro other member
        rcases List.mem_cons.mp member with rfl | later
        · exact ⟨_, mem_singleton_self _, Nat.le_refl _, Nat.le_refl _⟩
        · obtain ⟨whole, nothing, -⟩ := coalesced.covers other later
          cases nothing
      · intro whole member
        rw [List.mem_singleton.mp member]
        exact ⟨fragment, mem_cons_self, fragment, mem_cons_self, rfl, rfl, .inl rfl⟩
    | cons lastItem items =>
      obtain ⟨lastValid, itemsValid⟩ := List.forall_mem_cons.mp coalesced.valid
      obtain ⟨lastBefore, itemsApart⟩ := List.pairwise_cons.mp coalesced.apart
      have lastSize := lastValid.size_eq
      have startsAfter : ∀ whole ∈ lastItem :: items, fragment.endByteIndex ≤ whole.startByteIndex := by
        intro whole member
        obtain ⟨first, isFirst, -, -, same, -, -⟩ := coalesced.ends whole member
        rw [same]
        exact before first isFirst
      have inOrder : fragment.startByteIndex ≤ lastItem.endByteIndex := by
        have := startsAfter lastItem mem_cons_self
        omega
      obtain ⟨joined, appended, joinedValid, joinedStart, joinedEnd⟩ := fragmentValid.append lastValid inOrder
      have joinedContent := joinedValid
      unfold Fragment.Valid at joinedContent
      rw [joinedStart, joinedEnd] at joinedContent
      have later : ∀ whole ∈ lastItem :: items, ∃ first ∈ fragment :: fragments, ∃ last ∈ fragment :: fragments,
          whole.startByteIndex = first.startByteIndex ∧ whole.endByteIndex = last.endByteIndex ∧
            (first = last ∨ whole.size ≤ maxBytesPerChunk) := by
        intro whole member
        obtain ⟨first, isFirst, last, isLast, rest⟩ := coalesced.ends whole member
        exact ⟨first, mem_cons_of_mem _ isFirst, last, mem_cons_of_mem _ isLast, rest⟩
      unfold coalesceStep
      dsimp only
      rw [slice_eq joinedContent]
      change ∃ result, (if byteLen joined.content ≤ maxBytesPerChunk then
        (fragment.append lastItem code).bind fun fragment => .ok (fragment :: items)
        else .ok (fragment :: lastItem :: items)) = .ok result ∧ _
      by_cases short : byteLen joined.content ≤ maxBytesPerChunk
      · rw [if_pos short, appended]
        refine ⟨joined :: items, rfl, ?_, ?_, ?_, ?_⟩
        · exact List.forall_mem_cons.mpr ⟨joinedValid, itemsValid⟩
        · apply List.pairwise_cons.mpr
          refine ⟨?_, itemsApart⟩
          intro item member
          unfold Apart
          rw [joinedEnd]
          exact lastBefore item member
        · intro other member
          rcases List.mem_cons.mp member with rfl | later
          · refine ⟨joined, mem_cons_self, Nat.le_of_eq joinedStart, ?_⟩
            have := startsAfter lastItem mem_cons_self
            omega
          · obtain ⟨whole, inAcc, contains⟩ := coalesced.covers other later
            rcases List.mem_cons.mp inAcc with rfl | inItems
            · refine ⟨joined, mem_cons_self, ?_, by omega⟩
              have := startsAfter whole mem_cons_self
              omega
            · exact ⟨whole, mem_cons_of_mem _ inItems, contains⟩
        · intro whole member
          rcases List.mem_cons.mp member with rfl | inItems
          · obtain ⟨-, -, last, isLast, -, same, -⟩ := coalesced.ends lastItem mem_cons_self
            exact ⟨fragment, mem_cons_self, last, mem_cons_of_mem _ isLast, joinedStart,
              joinedEnd.trans same, .inr short⟩
          · exact later whole (mem_cons_of_mem _ inItems)
      · rw [if_neg short]
        refine ⟨fragment :: lastItem :: items, rfl, ?_, ?_, ?_, ?_⟩
        · exact List.forall_mem_cons.mpr ⟨fragmentValid, coalesced.valid⟩
        · exact List.pairwise_cons.mpr ⟨startsAfter, coalesced.apart⟩
        · intro other member
          rcases List.mem_cons.mp member with rfl | inFragments
          · exact ⟨other, mem_cons_self, Nat.le_refl _, Nat.le_refl _⟩
          · obtain ⟨whole, inAcc, contains⟩ := coalesced.covers other inFragments
            exact ⟨whole, mem_cons_of_mem _ inAcc, contains⟩
        · intro whole member
          rcases List.mem_cons.mp member with rfl | inAcc
          · exact ⟨whole, mem_cons_self, whole, mem_cons_self, rfl, rfl, .inl rfl⟩
          · exact later whole inAcc

end Fragments

end Warp.Chunker
