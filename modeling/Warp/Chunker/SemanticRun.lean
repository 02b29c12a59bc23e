import Warp.Chunker.Coverage

namespace Warp.Chunker

open Str List

variable {code : Str} {path : Path} {maxBytesPerChunk low high : ℕ} {node root : Node} {children : List Node}
  {fragments : List Fragment}

/-- Fragments of a run of siblings, from the current fragment on. -/
structure Tiling (code : Str) (maxBytesPerChunk start reach stop : ℕ) (leaves : List Node) (fits : Prop)
    (fragments : List Fragment) : Prop where
  valid : ∀ fragment ∈ fragments, fragment.Valid code
  apart : fragments.Pairwise Apart
  inside : ∀ fragment ∈ fragments, start ≤ fragment.startByteIndex ∧ fragment.endByteIndex ≤ stop
  reaches : ∃ fragment ∈ fragments, fragment.startByteIndex = start ∧ reach ≤ fragment.endByteIndex
  sizes : (∀ fragment ∈ fragments, fragment.size ≤ maxBytesPerChunk) ↔ fits
  covers : ∀ leaf ∈ leaves, leaf.size ≤ maxBytesPerChunk → ∃ fragment ∈ fragments,
    fragment.startByteIndex ≤ leaf.startByte ∧ leaf.endByte ≤ fragment.endByteIndex
  loses : ∀ leaf ∈ leaves, maxBytesPerChunk < leaf.size → ∀ fragment ∈ fragments,
    fragment.endByteIndex ≤ leaf.startByte ∨ leaf.endByte ≤ fragment.startByteIndex

theorem fromNodeStart_valid (wellFormed : node.WellFormed code) : (Fragment.fromNodeStart node path).Valid code := by
  obtain ⟨before, after, parts, len⟩ := (Node.wellFormed_iff.mp wellFormed).1
  have nothing : code = before ++ [] ++ after := by rw [append_nil, parts]
  exact byteSlice_eq_some_iff.mpr ⟨before, after, nothing, len, rfl⟩

theorem fromNodeEnd_valid (wellFormed : node.WellFormed code) : (Fragment.fromNodeEnd node path).Valid code := by
  obtain ⟨before, after, parts, len⟩ := (Node.wellFormed_iff.mp wellFormed).2.1
  have nothing : code = before ++ [] ++ after := by rw [append_nil, parts]
  exact byteSlice_eq_some_iff.mpr ⟨before, after, nothing, len, rfl⟩

theorem Node.children_nil_of_isEmpty (isLeaf : node.children.isEmpty = true) : node.children = [] :=
  List.isEmpty_iff.mp isLeaf

def NodeSplits (code : Str) (path : Path) (maxBytesPerChunk : ℕ) (node : Node) : Prop :=
  ∀ depth, node.WellFormed code →
    maxTraversalDepth < depth + node.largeDepth maxBytesPerChunk ∧
      splitNode code maxBytesPerChunk path depth node = .error .maxTraversalDepthExceeded ∨
    depth + node.largeDepth maxBytesPerChunk ≤ maxTraversalDepth ∧ ∃ fragments, splitNode code maxBytesPerChunk path depth node = .ok fragments ∧
      (node.children = [] → fragments = [Fragment.fromNodeStart node path]) ∧
      Tiling code maxBytesPerChunk node.startByte node.startByte node.endByte (childrenLeaves node.children)
        (node.GapsFit maxBytesPerChunk) fragments

theorem Node.WellFormed.leaf_size_le (wellFormed : node.WellFormed code) {leaf : Node} (member : leaf ∈ node.leaves) :
    leaf.size ≤ node.size := by
  obtain ⟨after, -, before⟩ := wellFormed.leaves_within leaf member
  unfold Node.size
  omega

section Steps

variable {current : Fragment} {child : Node}

variable {rest : List Fragment}

theorem Tiling.nest {nested : List Fragment} (currentValid : current.Valid code)
    (after : current.endByteIndex ≤ child.startByte) (childFormed : child.WellFormed code)
    (large : maxBytesPerChunk < child.size)
    (childLeaf : child.children = [] → nested = [Fragment.fromNodeStart child path])
    (childTiling : Tiling code maxBytesPerChunk child.startByte child.startByte child.endByte (childrenLeaves child.children) (child.GapsFit maxBytesPerChunk) nested)
    (restFormed : childrenWellFormed code child.endByte high children)
    (restTiling : Tiling code maxBytesPerChunk child.endByte child.endByte high (childrenLeaves children) ((Fragment.fromNodeEnd child path).size ≤ maxBytesPerChunk ∧ childrenGapsFit maxBytesPerChunk child.endByte child.endByte children) rest) :
    Tiling code maxBytesPerChunk current.startByteIndex current.endByteIndex high (childrenLeaves (child :: children))
      (current.size ≤ maxBytesPerChunk ∧
        childrenGapsFit maxBytesPerChunk current.startByteIndex current.endByteIndex (child :: children))
      (current :: (nested ++ rest)) := by
  have currentSize := currentValid.size_eq
  have childOrdered := childFormed.le
  have restOrdered := restFormed.le
  refine ⟨?_, ?_, ?_, ?_, ?_, ?_, ?_⟩
  · rw [forall_mem_cons, forall_mem_append]
    exact ⟨currentValid, childTiling.valid, restTiling.valid⟩
  · apply List.pairwise_cons.mpr
    constructor
    · rw [forall_mem_append]
      constructor
      · intro fragment member
        have := (childTiling.inside fragment member).1
        unfold Apart
        omega
      · intro fragment member
        have := (restTiling.inside fragment member).1
        unfold Apart
        omega
    · apply List.pairwise_append.mpr
      refine ⟨childTiling.apart, restTiling.apart, ?_⟩
      intro first firstMember second secondMember
      exact Nat.le_trans (childTiling.inside first firstMember).2 (restTiling.inside second secondMember).1
  · rw [forall_mem_cons, forall_mem_append]
    refine ⟨⟨Nat.le_refl _, by omega⟩, ?_, ?_⟩
    · intro fragment member
      have := childTiling.inside fragment member
      omega
    · intro fragment member
      have := restTiling.inside fragment member
      omega
  · exact ⟨current, mem_cons_self, rfl, Nat.le_refl _⟩
  · rw [forall_mem_cons, forall_mem_append, childTiling.sizes, restTiling.sizes]
    have empty : (Fragment.fromNodeEnd child path).size ≤ maxBytesPerChunk := Nat.zero_le _
    have unfolded : childrenGapsFit maxBytesPerChunk current.startByteIndex current.endByteIndex (child :: children) ↔
        child.GapsFit maxBytesPerChunk ∧ childrenGapsFit maxBytesPerChunk child.endByte child.endByte children := by
      rw [childrenGapsFit, if_pos large]
    rw [unfolded, and_iff_right empty]
  · intro leaf member small
    unfold childrenLeaves at member
    rcases List.mem_append.mp member with ofChild | ofRest
    · rw [Node.leaves_eq] at ofChild
      by_cases isLeaf : child.children.isEmpty = true
      · rw [if_pos isLeaf, mem_singleton] at ofChild
        rw [ofChild] at small
        omega
      · rw [if_neg isLeaf] at ofChild
        obtain ⟨fragment, inNested, contains⟩ := childTiling.covers leaf ofChild small
        exact ⟨fragment, mem_cons_of_mem _ (mem_append_left _ inNested), contains⟩
    · obtain ⟨fragment, inRest, contains⟩ := restTiling.covers leaf ofRest small
      exact ⟨fragment, mem_cons_of_mem _ (mem_append_right _ inRest), contains⟩
  · intro leaf member big
    unfold childrenLeaves at member
    rw [forall_mem_cons, forall_mem_append]
    rcases List.mem_append.mp member with ofChild | ofRest
    · obtain ⟨leafAfter, -, leafBefore⟩ := childFormed.leaves_within leaf ofChild
      refine ⟨.inl (by omega), ?_, ?_⟩
      · rw [Node.leaves_eq] at ofChild
        by_cases isLeaf : child.children.isEmpty = true
        · rw [if_pos isLeaf, mem_singleton] at ofChild
          rw [childLeaf (Node.children_nil_of_isEmpty isLeaf), forall_mem_singleton, ofChild]
          exact .inl (Nat.le_refl _)
        · rw [if_neg isLeaf] at ofChild
          exact childTiling.loses leaf ofChild big
      · intro fragment inRest
        have := (restTiling.inside fragment inRest).1
        exact .inr (by omega)
    · obtain ⟨leafAfter, -, -⟩ := childrenLeaves_within restFormed
        (fun _ _ otherFormed => otherFormed.leaves_within) leaf ofRest
      refine ⟨.inl (by omega), ?_, restTiling.loses leaf ofRest big⟩
      intro fragment inNested
      have := (childTiling.inside fragment inNested).2
      exact .inl (by omega)

theorem Tiling.leaves_covered {start : ℕ} {fits : Prop} (childFormed : child.WellFormed code)
    (small : child.size ≤ maxBytesPerChunk) (starts : start ≤ child.startByte)
    (restTiling : Tiling code maxBytesPerChunk start child.endByte high (childrenLeaves children) fits rest) :
    (∀ leaf ∈ childrenLeaves (child :: children), leaf.size ≤ maxBytesPerChunk → ∃ fragment ∈ rest,
      fragment.startByteIndex ≤ leaf.startByte ∧ leaf.endByte ≤ fragment.endByteIndex) ∧
    ∀ leaf ∈ childrenLeaves (child :: children), maxBytesPerChunk < leaf.size → leaf ∈ childrenLeaves children := by
  constructor
  · intro leaf member leafSmall
    unfold childrenLeaves at member
    rcases List.mem_append.mp member with ofChild | ofRest
    · obtain ⟨leafAfter, -, leafBefore⟩ := childFormed.leaves_within leaf ofChild
      obtain ⟨fragment, inRest, same, reached⟩ := restTiling.reaches
      exact ⟨fragment, inRest, by omega, by omega⟩
    · exact restTiling.covers leaf ofRest leafSmall
  · intro leaf member big
    unfold childrenLeaves at member
    rcases List.mem_append.mp member with ofChild | ofRest
    · have := childFormed.leaf_size_le ofChild
      omega
    · exact ofRest

theorem Tiling.start {fresh : Fragment} (currentValid : current.Valid code)
    (after : current.endByteIndex ≤ child.startByte) (childFormed : child.WellFormed code)
    (small : ¬maxBytesPerChunk < child.size) (full : maxBytesPerChunk < child.size + current.size)
    (freshStart : fresh.startByteIndex = child.startByte) (freshStop : fresh.endByteIndex = child.endByte)
    (freshSize : fresh.size = child.size) (restFormed : childrenWellFormed code child.endByte high children)
    (restTiling : Tiling code maxBytesPerChunk fresh.startByteIndex fresh.endByteIndex high (childrenLeaves children) (fresh.size ≤ maxBytesPerChunk ∧ childrenGapsFit maxBytesPerChunk fresh.startByteIndex fresh.endByteIndex children) rest) :
    Tiling code maxBytesPerChunk current.startByteIndex current.endByteIndex high (childrenLeaves (child :: children))
      (current.size ≤ maxBytesPerChunk ∧
        childrenGapsFit maxBytesPerChunk current.startByteIndex current.endByteIndex (child :: children))
      (current :: rest) := by
  have currentSize := currentValid.size_eq
  have childOrdered := childFormed.le
  have restOrdered := restFormed.le
  rw [freshStart, freshStop, freshSize] at restTiling
  obtain ⟨covers, loses⟩ := restTiling.leaves_covered childFormed (Nat.le_of_not_lt small) (Nat.le_refl _)
  have startsAfter : ∀ fragment ∈ rest, current.endByteIndex ≤ fragment.startByteIndex := by
    intro fragment member
    have := (restTiling.inside fragment member).1
    omega
  refine ⟨?_, ?_, ?_, ?_, ?_, ?_, ?_⟩
  · exact List.forall_mem_cons.mpr ⟨currentValid, restTiling.valid⟩
  · exact List.pairwise_cons.mpr ⟨startsAfter, restTiling.apart⟩
  · rw [forall_mem_cons]
    refine ⟨⟨Nat.le_refl _, by omega⟩, ?_⟩
    intro fragment member
    have := restTiling.inside fragment member
    omega
  · exact ⟨current, mem_cons_self, rfl, Nat.le_refl _⟩
  · rw [forall_mem_cons, restTiling.sizes]
    have runSize : current.endByteIndex - current.startByteIndex = current.size := by omega
    have unfolded : childrenGapsFit maxBytesPerChunk current.startByteIndex current.endByteIndex (child :: children) ↔
        childrenGapsFit maxBytesPerChunk child.startByte child.endByte children := by
      rw [childrenGapsFit, if_neg small, if_pos (by rw [runSize]; exact full)]
    rw [unfolded, and_iff_right (Nat.le_of_not_lt small)]
  · intro leaf member leafSmall
    obtain ⟨fragment, inRest, contains⟩ := covers leaf member leafSmall
    exact ⟨fragment, mem_cons_of_mem _ inRest, contains⟩
  · intro leaf member big
    have ofRest := loses leaf member big
    obtain ⟨leafAfter, -, -⟩ := childrenLeaves_within restFormed
      (fun _ _ otherFormed => otherFormed.leaves_within) leaf ofRest
    exact List.forall_mem_cons.mpr ⟨.inl (by omega), restTiling.loses leaf ofRest big⟩

theorem Tiling.extend {rest : List Fragment} {extended : Fragment} (currentValid : current.Valid code)
    (after : current.endByteIndex ≤ child.startByte) (childFormed : child.WellFormed code)
    (small : ¬maxBytesPerChunk < child.size) (room : ¬maxBytesPerChunk < child.size + current.size)
    (extendedStart : extended.startByteIndex = current.startByteIndex)
    (extendedStop : extended.endByteIndex = child.endByte)
    (extendedSize : extended.size = child.endByte - current.startByteIndex)
    (restTiling : Tiling code maxBytesPerChunk extended.startByteIndex extended.endByteIndex high
      (childrenLeaves children) (extended.size ≤ maxBytesPerChunk ∧
        childrenGapsFit maxBytesPerChunk extended.startByteIndex extended.endByteIndex children) rest) :
    Tiling code maxBytesPerChunk current.startByteIndex current.endByteIndex high (childrenLeaves (child :: children))
      (current.size ≤ maxBytesPerChunk ∧
        childrenGapsFit maxBytesPerChunk current.startByteIndex current.endByteIndex (child :: children)) rest := by
  have currentSize := currentValid.size_eq
  have childOrdered := childFormed.le
  rw [extendedStart, extendedStop, extendedSize] at restTiling
  obtain ⟨covers, loses⟩ := restTiling.leaves_covered childFormed (Nat.le_of_not_lt small) (by omega)
  refine ⟨restTiling.valid, restTiling.apart, restTiling.inside, ?_, ?_, covers, ?_⟩
  · obtain ⟨fragment, inRest, same, reached⟩ := restTiling.reaches
    exact ⟨fragment, inRest, same, by omega⟩
  · rw [restTiling.sizes]
    have runSize : current.endByteIndex - current.startByteIndex = current.size := by omega
    have unfolded : childrenGapsFit maxBytesPerChunk current.startByteIndex current.endByteIndex (child :: children) ↔
        child.endByte - current.startByteIndex ≤ maxBytesPerChunk ∧
          childrenGapsFit maxBytesPerChunk current.startByteIndex child.endByte children := by
      rw [childrenGapsFit, if_neg small, if_neg (by rw [runSize]; exact room)]
    rw [unfolded]
    constructor
    · rintro ⟨fits, restFits⟩
      exact ⟨by omega, fits, restFits⟩
    · rintro ⟨-, fits, restFits⟩
      exact ⟨fits, restFits⟩
  · intro leaf member big
    exact restTiling.loses leaf (loses leaf member big) big

end Steps

theorem splitChildren_spec {depth : ℕ} (shallow : depth ≤ maxTraversalDepth) (nested : ∀ child ∈ children, NodeSplits code path maxBytesPerChunk child)
    {current : Fragment} (currentValid : current.Valid code) (wellFormed : childrenWellFormed code low high children)
    (after : current.endByteIndex ≤ low) (fragments : List Fragment) :
    maxTraversalDepth < depth + childrenLargeDepth maxBytesPerChunk children ∧
      splitChildren code maxBytesPerChunk path depth current fragments children = .error .maxTraversalDepthExceeded ∨
    depth + childrenLargeDepth maxBytesPerChunk children ≤ maxTraversalDepth ∧ ∃ fresh, splitChildren code maxBytesPerChunk path depth current fragments children = .ok (fragments ++ fresh) ∧
      (children = [] → fresh = [current]) ∧
      Tiling code maxBytesPerChunk current.startByteIndex current.endByteIndex high (childrenLeaves children)
        (current.size ≤ maxBytesPerChunk ∧
          childrenGapsFit maxBytesPerChunk current.startByteIndex current.endByteIndex children) fresh := by
  induction children generalizing current low fragments with
  | nil =>
    unfold childrenWellFormed at wellFormed
    refine .inr ⟨by rw [childrenLargeDepth]; exact shallow, [current], by rw [splitChildren], fun _ => rfl,
      ?_, ?_, ?_, ?_, ?_, ?_, ?_⟩
    · exact List.forall_mem_singleton.mpr currentValid
    · exact pairwise_singleton _ _
    · exact List.forall_mem_singleton.mpr ⟨Nat.le_refl _, by omega⟩
    · exact ⟨current, mem_singleton_self _, rfl, Nat.le_refl _⟩
    · rw [forall_mem_singleton]
      unfold childrenGapsFit
      rw [and_true]
    · unfold childrenLeaves
      simp
    · unfold childrenLeaves
      simp
  | cons child children ih =>
    unfold childrenWellFormed at wellFormed
    obtain ⟨childAfter, childFormed, restFormed⟩ := wellFormed
    obtain ⟨childSplits, restSplits⟩ := List.forall_mem_cons.mp nested
    have after : current.endByteIndex ≤ child.startByte := Nat.le_trans after childAfter
    have currentSize := currentValid.size_eq
    have childOrdered := childFormed.le
    have startValid := @fromNodeStart_valid code path child childFormed
    have endValid := @fromNodeEnd_valid code path child childFormed
    rw [splitChildren, childrenLargeDepth]
    by_cases large : maxBytesPerChunk < child.size
    · rw [if_pos large, if_pos large]
      rcases childSplits (depth + 1) childFormed with
        ⟨deep, failed⟩ | ⟨childShallow, inner, split, childLeaf, childTiling⟩
      · rw [failed]
        exact .inl ⟨by omega, rfl⟩
      · rw [split]
        rcases ih restSplits endValid restFormed (Nat.le_refl _) (fragments ++ [current] ++ inner) with
          ⟨deep, failed⟩ | ⟨restShallow, rest, ran, -, restTiling⟩
        · exact .inl ⟨by omega, failed⟩
        · refine .inr ⟨by omega, current :: (inner ++ rest), ?_, by simp, ?_⟩
          · refine Eq.trans ran ?_
            simp only [append_assoc, cons_append, nil_append]
          · exact Tiling.nest currentValid after childFormed large childLeaf childTiling restFormed restTiling
    · rw [if_neg large, if_neg large, Nat.zero_max]
      by_cases full : maxBytesPerChunk < child.size + current.size
      · rw [if_pos full]
        obtain ⟨fresh, appended, freshValid, freshStart, freshStop⟩ := startValid.append endValid childOrdered
        have freshSize := freshValid.size_eq
        rw [freshStart, freshStop] at freshSize
        have freshSize : fresh.size = child.size := by
          unfold Node.size
          change child.startByte + fresh.size = child.endByte at freshSize
          omega
        rw [appended]
        rcases ih restSplits freshValid restFormed (Nat.le_of_eq freshStop) (fragments ++ [current]) with
          failed | ⟨restShallow, rest, ran, -, restTiling⟩
        · exact .inl failed
        · refine .inr ⟨restShallow, current :: rest, ?_, by simp, ?_⟩
          · refine Eq.trans ran ?_
            rw [append_assoc, singleton_append]
          · exact Tiling.start currentValid after childFormed large full freshStart freshStop freshSize restFormed
              restTiling
      · rw [if_neg full]
        obtain ⟨content, sliced⟩ := exists_byteSlice (isBoundary_of_byteSlice currentValid).1
          (isBoundary_of_byteSlice endValid).2 (by change _ ≤ child.endByte; omega)
        have sliced : byteSlice code current.startByteIndex child.endByte = some content := sliced
        let extended : Fragment :=
          { current with endLine := child.endRow, endByteIndex := child.endByte, content := content }
        have extendedValid : extended.Valid code := sliced
        have extendedSize : extended.size = child.endByte - current.startByteIndex := by
          have := byteLen_of_byteSlice sliced
          change byteLen content = _
          omega
        rw [slice_eq sliced]
        rcases ih restSplits extendedValid restFormed (Nat.le_refl _) fragments with
          failed | ⟨restShallow, rest, ran, -, restTiling⟩
        · exact .inl failed
        · refine .inr ⟨restShallow, rest, ran, by simp, ?_⟩
          exact @Tiling.extend _ _ _ _ _ _ _ extended currentValid after childFormed large full rfl rfl extendedSize restTiling

theorem splitNode_spec (code : Str) (path : Path) (maxBytesPerChunk : ℕ) (node : Node) :
    NodeSplits code path maxBytesPerChunk node := by
  induction node using Node.induction with
  | step node ih =>
    intro depth wellFormed
    obtain ⟨startByte, endByte, startRow, endRow, children⟩ := node
    obtain ⟨-, -, inside⟩ := Node.wellFormed_iff.mp wellFormed
    unfold splitNode Node.largeDepth
    by_cases deep : maxTraversalDepth < depth
    · rw [if_pos deep]
      exact .inl ⟨by omega, rfl⟩
    · rw [if_neg deep]
      rcases splitChildren_spec (Nat.le_of_not_lt deep) ih (fromNodeStart_valid wellFormed) inside
        (Nat.le_refl _) [] with failed | ⟨shallow, fragments, ran, onLeaf, tiling⟩
      · exact .inl failed
      · refine .inr ⟨shallow, fragments, ran, onLeaf, ?_⟩
        have empty : (Fragment.fromNodeStart (.node startByte endByte startRow endRow children) path).size ≤
            maxBytesPerChunk := Nat.zero_le _
        rw [and_iff_right empty] at tiling
        unfold Node.GapsFit
        exact tiling

/-- What is promised of the fragments of a text with a syntax tree. -/
structure Chunked (code : Str) (maxBytesPerChunk : ℕ) (root : Node) (fragments : List Fragment) : Prop where
  apart : fragments.Pairwise Apart
  content : ∀ fragment ∈ fragments, fragment.Valid code
  bounded : ∀ fragment ∈ fragments, fragment.size ≤ maxBytesPerChunk
  covers : ∀ leaf ∈ root.leaves, ∀ byte, leaf.startByte ≤ byte → byte < leaf.endByte →
    ∃ fragment ∈ fragments, fragment.startByteIndex ≤ byte ∧ byte < fragment.endByteIndex

/-- No gap makes a fragment too long and no token is too long; a tree that is a single token is empty. -/
structure Fits (maxBytesPerChunk : ℕ) (root : Node) : Prop where
  gaps : root.GapsFit maxBytesPerChunk
  leaves : ∀ leaf ∈ root.leaves, leaf.size ≤ maxBytesPerChunk
  single : root.children = [] → root.size = 0

section Coalesce

variable {result : List Fragment} {leaf : Node}

theorem Coalesced.sizes (coalesced : Coalesced code maxBytesPerChunk fragments result)
    (valid : ∀ fragment ∈ fragments, fragment.Valid code) :
    (∀ whole ∈ result, whole.size ≤ maxBytesPerChunk) ↔ ∀ fragment ∈ fragments, fragment.size ≤ maxBytesPerChunk := by
  constructor
  · intro bounded fragment member
    obtain ⟨whole, isWhole, starts, stops⟩ := coalesced.covers fragment member
    have := bounded whole isWhole
    have := (valid fragment member).size_eq
    have := (coalesced.valid whole isWhole).size_eq
    omega
  · intro bounded whole member
    obtain ⟨first, isFirst, last, isLast, starts, stops, same | short⟩ := coalesced.ends whole member
    · have := bounded first isFirst
      have := (valid first isFirst).size_eq
      have := (coalesced.valid whole member).size_eq
      subst same
      omega
    · exact short

theorem Coalesced.loses (coalesced : Coalesced code maxBytesPerChunk fragments result)
    (valid : ∀ fragment ∈ fragments, fragment.Valid code) (large : maxBytesPerChunk < leaf.size)
    (lost : ∀ fragment ∈ fragments, fragment.endByteIndex ≤ leaf.startByte ∨ leaf.endByte ≤ fragment.startByteIndex) :
    ¬∃ whole ∈ result, whole.startByteIndex ≤ leaf.startByte ∧ leaf.startByte < whole.endByteIndex := by
  rintro ⟨whole, member, starts, stops⟩
  obtain ⟨first, isFirst, last, isLast, sameStart, sameStop, same | short⟩ := coalesced.ends whole member
  · subst same
    have := lost first isFirst
    unfold Node.size at large
    omega
  · have firstSize := (valid first isFirst).size_eq
    have lastSize := (valid last isLast).size_eq
    have wholeSize := (coalesced.valid whole member).size_eq
    have := lost first isFirst
    have := lost last isLast
    unfold Node.size at large
    omega

end Coalesce

/-- Semantic chunking is right if and only if everything fits, unless large nodes are nested too deeply. -/
theorem chunkCode_chunked_iff (wellFormed : root.WellFormed code) :
    maxTraversalDepth < root.largeDepth maxBytesPerChunk ∧
      chunkCode code maxBytesPerChunk path root = .error .maxTraversalDepthExceeded ∨
    root.largeDepth maxBytesPerChunk ≤ maxTraversalDepth ∧
      ∃ fragments, chunkCode code maxBytesPerChunk path root = .ok fragments ∧
        (Chunked code maxBytesPerChunk root fragments ↔ Fits maxBytesPerChunk root) := by
  unfold chunkCode
  rcases splitNode_spec code path maxBytesPerChunk root 0 wellFormed with
    ⟨deep, failed⟩ | ⟨shallow, nodes, ran, onLeaf, tiling⟩
  · rw [failed]
    exact .inl ⟨by omega, rfl⟩
  · obtain ⟨fragments, result, coalesced⟩ :=
      coalesceFragments_spec tiling.valid tiling.apart
    rw [ran]
    refine .inr ⟨by omega, fragments, result, ?_⟩
    have sizes := (coalesced.sizes tiling.valid).trans tiling.sizes
    have leaves := root.leaves_eq
    constructor
    · intro chunked
      have single : root.children = [] → root.size = 0 := by
        intro isLeaf
        have alone := onLeaf isLeaf
        by_contra nonzero
        have isToken : root ∈ root.leaves := by
          rw [leaves, isLeaf]
          exact mem_singleton_self root
        have ordered := wellFormed.le
        obtain ⟨whole, member, starts, stops⟩ := chunked.covers root isToken root.startByte (Nat.le_refl _)
          (by unfold Node.size at nonzero; omega)
        obtain ⟨first, isFirst, last, isLast, sameStart, sameStop, -⟩ := coalesced.ends whole member
        rw [alone, mem_singleton] at isLast
        rw [sameStop, isLast] at stops
        exact absurd stops (Nat.lt_irrefl _)
      refine ⟨sizes.mp chunked.bounded, ?_, single⟩
      intro leaf member
      by_contra large
      have large := Nat.lt_of_not_le large
      have inRange := wellFormed.leaves_within leaf member
      have isCovered := chunked.covers leaf member leaf.startByte (Nat.le_refl _)
        (by unfold Node.size at large; omega)
      rw [leaves] at member
      by_cases isLeaf : root.children.isEmpty = true
      · rw [if_pos isLeaf, mem_singleton] at member
        have := single (Node.children_nil_of_isEmpty isLeaf)
        rw [member] at large
        omega
      · rw [if_neg isLeaf] at member
        exact coalesced.loses tiling.valid large (tiling.loses leaf member large) isCovered
    · intro fits
      refine ⟨coalesced.apart, coalesced.valid, sizes.mpr fits.gaps, ?_⟩
      intro leaf member byte starts stops
      have small := fits.leaves leaf member
      rw [leaves] at member
      by_cases isLeaf : root.children.isEmpty = true
      · rw [if_pos isLeaf, mem_singleton] at member
        have := fits.single (Node.children_nil_of_isEmpty isLeaf)
        unfold Node.size at this
        rw [member] at starts stops
        omega
      · rw [if_neg isLeaf] at member
        obtain ⟨fragment, isFragment, before, after⟩ := tiling.covers leaf member small
        obtain ⟨whole, isWhole, wholeBefore, wholeAfter⟩ := coalesced.covers fragment isFragment
        exact ⟨whole, isWhole, by omega, by omega⟩

/-- Two tokens with a gap of one character. -/
theorem chunkCode_pair :
    let root : Node := .node 0 5 0 0 [.node 0 2 0 0 [], .node 3 5 0 0 []]
    maxTraversalDepth < root.largeDepth 4 ∧
      chunkCode (List.replicate 5 'a') 4 [] root = .error .maxTraversalDepthExceeded ∨
    root.largeDepth 4 ≤ maxTraversalDepth ∧
      ∃ fragments, chunkCode (List.replicate 5 'a') 4 [] root = .ok fragments ∧
        (Chunked (List.replicate 5 'a') 4 root fragments ↔ Fits 4 root) :=
  chunkCode_chunked_iff (by decide +kernel)

/-- A gap makes a fragment too long, and a long token is in no fragment. -/
theorem long_gap_and_long_token :
    let code := List.replicate 14 'a'
    let gap : Node := .node 0 14 0 0 [.node 0 4 0 0 [], .node 9 14 0 0 []]
    let token : Node := .node 0 14 0 0 [.node 0 2 0 0 [], .node 3 14 0 0 []]
    gap.WellFormed code ∧ token.WellFormed code ∧
      (∃ fragments, chunkCode code 10 [] gap = .ok fragments ∧ fragments.map Fragment.size = [14] ∧
        ¬Chunked code 10 gap fragments) ∧
      ∃ fragments, chunkCode code 10 [] token = .ok fragments ∧
        (fragments.map fun fragment => (fragment.startByteIndex, fragment.endByteIndex)) = [(0, 3), (14, 14)] ∧
        ¬Chunked code 10 token fragments := by
  intro code gap token
  refine ⟨by decide +kernel, by decide +kernel, ⟨_, rfl, by decide +kernel, ?_⟩, _, rfl, by decide +kernel, ?_⟩
  · intro chunked
    exact absurd chunked.bounded (by decide +kernel)
  · intro chunked
    exact absurd (chunked.covers (.node 3 14 0 0 []) (.tail _ (.head _)) 5 (by decide) (by decide)) (by decide +kernel)

end Warp.Chunker
