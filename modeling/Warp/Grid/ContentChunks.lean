import Warp.Grid.Content

namespace Warp.Grid

open List

def Chunk.Holds (chunk : Chunk) (offset : ℕ) (bytes : List UInt8) : Prop :=
  chunk.startOffset ≤ offset ∧ offset + bytes.length ≤ chunk.stopOffset ∧
    (chunk.content.drop (offset - chunk.startOffset)).take bytes.length = bytes

theorem Chunk.pushCharOrStr_spec {chunk next : Chunk} {charOrStr : CharOrStr}
    (pushed : chunk.pushCharOrStr charOrStr = some next) :
    next.startOffset = chunk.startOffset ∧ next.len = chunk.len + charOrStr.bytes.length ∧ next.len ≤ chunkSize ∧
      next.Holds chunk.stopOffset charOrStr.bytes ∧
      ∀ offset bytes, chunk.Holds offset bytes → next.Holds offset bytes := by
  unfold Chunk.pushCharOrStr at pushed
  by_cases fits : chunk.len + charOrStr.bytes.length ≤ chunkSize
  · rw [dif_pos fits] at pushed
    obtain rfl := Option.some_inj.mp pushed
    have size := chunk.size
    have kept : (chunk.content.take chunk.len).length = chunk.len := by
      rw [length_take]
      omega
    refine ⟨rfl, rfl, fits, ⟨Nat.le_add_right _ _, ?_, ?_⟩, ?_⟩
    · exact le_of_eq (Nat.add_assoc _ _ _)
    · have start : chunk.stopOffset - chunk.startOffset = (chunk.content.take chunk.len).length := by
        rw [kept]
        exact Nat.add_sub_cancel_left _ _
      simp only [start, append_assoc, drop_left, take_left]
    · intro offset bytes holds
      obtain ⟨after, before, read⟩ := holds
      have before : offset + bytes.length ≤ chunk.startOffset + chunk.len := before
      refine ⟨after, Nat.le_trans before (Nat.add_le_add_left (Nat.le_add_right _ _) _), ?_⟩
      have inside : offset - chunk.startOffset + bytes.length ≤ chunk.len := by omega
      have front : (chunk.content.take chunk.len).drop (offset - chunk.startOffset) =
          (chunk.content.drop (offset - chunk.startOffset)).take (chunk.len - (offset - chunk.startOffset)) :=
        drop_take
      change List.take _ (List.drop (offset - chunk.startOffset) (chunk.content.take chunk.len ++ _ ++ _)) = bytes
      rw [append_assoc, drop_append_of_le_length (by omega), take_append_of_le_length, front,
        take_take, Nat.min_eq_left (by omega), read]
      rw [length_drop]
      omega
  · rw [dif_neg fits] at pushed
    cases pushed

theorem Chunk.truncate_holds {chunk next : Chunk} {debugAssertions : Bool} {newLen : ℕ}
    (reaches : chunk.startOffset ≤ newLen) (truncated : chunk.truncate debugAssertions newLen = some next) :
    next.startOffset = chunk.startOffset ∧ next.stopOffset = newLen ∧
      ∀ offset bytes, chunk.Holds offset bytes → offset + bytes.length ≤ newLen → next.Holds offset bytes := by
  unfold Chunk.truncate at truncated
  rw [if_pos reaches] at truncated
  obtain rfl := Option.some_inj.mp truncated
  have stop : chunk.startOffset + (newLen - chunk.startOffset) = newLen := Nat.add_sub_cancel' reaches
  refine ⟨rfl, stop, ?_⟩
  intro offset bytes holds inside
  exact ⟨holds.1, Nat.le_trans inside (le_of_eq stop.symm), holds.2.2⟩

/-- Filled chunks follow each other without a gap from one offset to another. -/
def Chained : ℕ → List (ℕ × Chunk) → ℕ → Prop
  | start, [], stop => start = stop
  | start, (key, chunk) :: rest, stop =>
    chunk.startOffset = start ∧ start ≤ key ∧ chunk.stopOffset = key + 1 ∧ chunk.len ≤ chunkSize ∧
      Chained (key + 1) rest stop

namespace Chained

variable {start stop newLen : ℕ} {entries : List (ℕ × Chunk)}

theorem le (chained : Chained start entries stop) : start ≤ stop := by
  induction entries generalizing start with
  | nil => exact le_of_eq chained
  | cons first rest ih =>
    obtain ⟨-, inside, -, -, rest⟩ := chained
    have := ih rest
    omega

theorem mem (chained : Chained start entries stop) {entry : ℕ × Chunk} (member : entry ∈ entries) :
    start ≤ entry.2.startOffset ∧ entry.2.startOffset ≤ entry.1 ∧ entry.2.stopOffset = entry.1 + 1 ∧
      entry.2.len ≤ chunkSize ∧ entry.1 < stop := by
  induction entries generalizing start with
  | nil => cases member
  | cons first rest ih =>
    obtain ⟨atStart, inside, ends, room, tail⟩ := chained
    rcases List.mem_cons.mp member with rfl | member
    · have := tail.le
      exact ⟨le_of_eq atStart.symm, by omega, ends, room, by omega⟩
    · have later := ih tail member
      exact ⟨by omega, later.2⟩

theorem apart (chained : Chained start entries stop) {a b : ℕ × Chunk} (left : a ∈ entries) (right : b ∈ entries)
    (less : a.1 < b.1) : a.1 < b.2.startOffset := by
  induction entries generalizing start with
  | nil => cases left
  | cons first rest ih =>
    obtain ⟨atStart, inside, ends, room, tail⟩ := chained
    rcases List.mem_cons.mp left with rfl | left
    · rcases List.mem_cons.mp right with rfl | right
      · omega
      · have later := tail.mem right
        omega
    · rcases List.mem_cons.mp right with same | right
      · have later := tail.mem left
        have sameKey : b.1 = first.1 := congrArg Prod.fst same
        omega
      · exact ih tail left right

theorem snoc (chained : Chained start entries stop) {chunk : Chunk} (atStop : chunk.startOffset = stop)
    (nonempty : 0 < chunk.len) (room : chunk.len ≤ chunkSize) :
    Chained start (entries ++ [(chunk.stopOffset - 1, chunk)]) chunk.stopOffset := by
  have stops : chunk.stopOffset - 1 + 1 = chunk.stopOffset := by unfold Chunk.stopOffset; omega
  induction entries generalizing start with
  | nil =>
    obtain rfl : start = stop := chained
    refine ⟨atStop, ?_, stops.symm, room, stops⟩
    unfold Chunk.stopOffset
    omega
  | cons first rest ih =>
    obtain ⟨atStart, inside, ends, firstRoom, tail⟩ := chained
    exact ⟨atStart, inside, ends, firstRoom, ih tail⟩

theorem below (chained : Chained start entries stop) (le : start ≤ newLen) :
    Chained start (entries.filter fun entry => entry.1 < newLen)
        (((entries.find? fun entry => newLen ≤ entry.1).map fun entry => entry.2.startOffset).getD stop) ∧
      ((entries.find? fun entry => newLen ≤ entry.1).map fun entry => entry.2.startOffset).getD stop ≤ newLen := by
  induction entries generalizing start with
  | nil =>
    obtain rfl : start = stop := chained
    exact ⟨rfl, le⟩
  | cons first rest ih =>
    obtain ⟨key, chunk⟩ := first
    obtain ⟨atStart, inside, ends, room, tail⟩ := chained
    by_cases reached : newLen ≤ key
    · have noneBelow : ((key, chunk) :: rest).filter (fun entry => entry.1 < newLen) = [] := by
        apply List.filter_eq_nil_iff.mpr
        intro entry member
        rcases List.mem_cons.mp member with rfl | member
        · simpa using reached
        · have later := tail.mem member
          simp only [decide_eq_true_eq]
          omega
      rw [noneBelow, List.find?_cons_of_pos (by simpa using reached)]
      exact ⟨atStart.symm, le_of_eq_of_le atStart le⟩
    · have kept : ((key, chunk) :: rest).filter (fun entry => entry.1 < newLen) =
          (key, chunk) :: rest.filter fun entry => entry.1 < newLen :=
        filter_cons_of_pos (by simpa using reached)
      have inRest := ih tail (by omega)
      rw [kept, List.find?_cons_of_neg (by simpa using reached)]
      exact ⟨⟨atStart, inside, ends, room, inRest.1⟩, inRest.2⟩

theorem dropWhile (chained : Chained start entries stop) (le : start ≤ newLen) :
    ∃ first ≤ newLen, Chained first (entries.dropWhile fun entry => entry.1 < newLen) stop := by
  induction entries generalizing start with
  | nil => exact ⟨start, le, chained⟩
  | cons first rest ih =>
    obtain ⟨key, chunk⟩ := first
    by_cases before : key < newLen
    · rw [dropWhile_cons_of_pos (by simpa using before)]
      exact ih chained.2.2.2.2 before
    · rw [dropWhile_cons_of_neg (by simpa using before)]
      exact ⟨start, le, chained⟩

end Chained

namespace Content

structure Covers (content : Content) (start : ℕ) : Prop where
  chained : ∃ first ≤ start, Chained first content.filledChunks.entries content.activeChunk.startOffset
  room : content.activeChunk.len ≤ chunkSize
  inside : start ≤ content.endOffset

def Holds (content : Content) (offset : ℕ) (bytes : List UInt8) : Prop :=
  0 < bytes.length ∧
    (content.activeChunk.Holds offset bytes ∨ ∃ entry ∈ content.filledChunks.entries, entry.2.Holds offset bytes)

variable {content next : Content} {start offset : ℕ} {bytes : List UInt8}

theorem covers_new : Content.new.Covers 0 := ⟨⟨0, le_refl 0, rfl⟩, Nat.zero_le _, le_refl 0⟩

theorem slice_eq (debugAssertions : Bool) (covers : content.Covers start) (holds : content.Holds offset bytes) :
    content.slice debugAssertions offset (offset + bytes.length) = some bytes := by
  obtain ⟨⟨first, -, chained⟩, room, -⟩ := covers
  obtain ⟨nonempty, held⟩ := holds
  have sliceOf : ∀ chunk : Chunk, chunk.len ≤ chunkSize → chunk.Holds offset bytes →
      ((content.filledChunks.ceiling offset).map Prod.snd).getD content.activeChunk = chunk →
      content.slice debugAssertions offset (offset + bytes.length) = some bytes := by
    intro chunk chunkRoom chunkHolds found
    obtain ⟨after, before, read⟩ := chunkHolds
    have inside : ¬ chunk.stopOffset < offset + bytes.length := Nat.not_lt_of_le before
    have before : offset + bytes.length ≤ chunk.startOffset + chunk.len := before
    have length : offset + bytes.length - chunk.startOffset - (offset - chunk.startOffset) = bytes.length := by omega
    unfold Content.slice Chunk.slice
    simp only [found, inside, decide_false, Bool.and_false, Bool.false_eq_true, if_false]
    rw [if_pos after, if_pos ⟨by omega, by omega⟩, length, read]
  rcases held with held | ⟨entry, member, held⟩
  · apply sliceOf content.activeChunk room held
    have noneFound : content.filledChunks.ceiling offset = none := by
      apply OrderedMap.ceiling_eq_none.mpr
      intro entry member
      exact Nat.lt_of_lt_of_le (chained.mem member).2.2.2.2 held.1
    rw [noneFound]
    rfl
  · have inChain := chained.mem member
    apply sliceOf entry.2 inChain.2.2.2.1 held
    have found : content.filledChunks.ceiling offset = some entry := by
      apply OrderedMap.ceiling_eq_some.mpr
      have within := held.2.1
      refine ⟨member, by omega, ?_⟩
      intro other otherMember reached
      by_contra less
      have separate := chained.apart otherMember member (Nat.lt_of_not_le less)
      have after := held.1
      omega
    rw [found]
    rfl

theorem rollChunk_spec {graphemeLen : ℕ} (covers : content.Covers start) (small : graphemeLen < chunkSize) :
    (content.rollChunk graphemeLen).Covers start ∧ (content.rollChunk graphemeLen).endOffset = content.endOffset ∧
      ∀ offset bytes, content.Holds offset bytes → (content.rollChunk graphemeLen).Holds offset bytes := by
  unfold rollChunk
  by_cases full : content.activeChunk.len + graphemeLen > chunkSize
  · rw [if_pos full]
    obtain ⟨⟨first, le, chained⟩, room, inside⟩ := covers
    have nonempty : 0 < content.activeChunk.len := by omega
    have past : ∀ entry ∈ content.filledChunks.entries, entry.1 < content.activeChunk.stopOffset - 1 := by
      intro entry member
      have := (chained.mem member).2.2.2.2
      unfold Chunk.stopOffset
      omega
    have appended := @OrderedMap.insert_last _ _ _ content.filledChunks _ content.activeChunk past
    refine ⟨⟨⟨first, le, ?_⟩, Nat.zero_le _, inside⟩, rfl, ?_⟩
    · rw [appended]
      exact chained.snoc rfl nonempty room
    · intro offset bytes holds
      obtain ⟨some, held⟩ := holds
      refine ⟨some, Or.inr ?_⟩
      rw [appended]
      rcases held with held | ⟨entry, member, held⟩
      · exact ⟨_, mem_append_right _ (mem_singleton_self _), held⟩
      · exact ⟨entry, mem_append_left _ member, held⟩
  · rw [if_neg full]
    exact ⟨covers, rfl, fun _ _ holds => holds⟩

theorem pushGrapheme_spec {grapheme : Grapheme} (covers : content.Covers start) (sized : grapheme.Sized)
    (pushed : content.pushGrapheme grapheme = some next) :
    next.Covers start ∧ next.endOffset = content.endOffset + grapheme.len ∧
      next.Holds content.endOffset grapheme.bytes ∧
      ∀ offset bytes, content.Holds offset bytes → next.Holds offset bytes := by
  unfold pushGrapheme at pushed
  by_cases small : grapheme.len < chunkSize
  · rw [if_pos small] at pushed
    obtain ⟨activeChunk, written, made⟩ := Option.bind_eq_some_iff.mp pushed
    obtain rfl := Option.some_inj.mp made
    obtain ⟨⟨chained, room, inside⟩, sameEnd, kept⟩ := rollChunk_spec covers small
    obtain ⟨sameStart, newLen, newRoom, newHolds, oldHolds⟩ := Chunk.pushCharOrStr_spec written
    have length : grapheme.content.bytes.length = grapheme.len := sized
    have grown : activeChunk.stopOffset = content.endOffset + grapheme.len := by
      have before : (content.rollChunk grapheme.len).activeChunk.startOffset +
          (content.rollChunk grapheme.len).activeChunk.len = content.endOffset := sameEnd
      unfold Chunk.stopOffset
      omega
    refine ⟨⟨?_, newRoom, ?_⟩, grown, ⟨?_, Or.inl ?_⟩, ?_⟩
    · change ∃ first ≤ start, Chained first _ activeChunk.startOffset
      rw [sameStart]
      exact chained
    · exact Nat.le_trans covers.inside (Nat.le_trans (Nat.le_add_right _ _) (le_of_eq grown.symm))
    · exact length.symm ▸ grapheme.info.utf8Bytes.pos
    · exact sameEnd ▸ newHolds
    · intro offset bytes holds
      obtain ⟨nonempty, held⟩ := kept offset bytes holds
      refine ⟨nonempty, ?_⟩
      rcases held with held | held
      · exact Or.inl (oldHolds offset bytes held)
      · exact Or.inr held
  · rw [if_neg small] at pushed
    cases pushed

theorem truncate_spec {debugAssertions : Bool} {newLen : ℕ} (covers : content.Covers start) (live : start ≤ newLen)
    (truncated : content.truncate debugAssertions newLen = some next) :
    next.endOffset = newLen ∧ (newLen ≤ content.endOffset → next.Covers start ∧
      ∀ offset bytes, content.Holds offset bytes → offset + bytes.length ≤ newLen → next.Holds offset bytes) := by
  obtain ⟨⟨first, le, chained⟩, room, inside⟩ := covers
  obtain ⟨keptChain, cut⟩ := chained.below (Nat.le_trans le live)
  unfold Content.truncate at truncated
  obtain ⟨activeChunk, shortened, made⟩ := Option.bind_eq_some_iff.mp truncated
  change Chunk.truncate _ (((content.filledChunks.splitOff newLen).2.first.map Prod.snd).getD _) _ = _ at shortened
  rw [OrderedMap.first_splitOff] at shortened
  have made : next = ⟨(content.filledChunks.splitOff newLen).1, activeChunk⟩ := by
    dsimp only at made
    split at made
    · cases made
    · exact (Option.some_inj.mp made).symm
  subst made
  -- the chunk that is shortened is the first one that does not end before the new length
  have starts : ((content.filledChunks.ceiling newLen).map Prod.snd |>.getD content.activeChunk).startOffset =
      ((content.filledChunks.entries.find? fun entry => newLen ≤ entry.1).map fun entry =>
        entry.2.startOffset).getD content.activeChunk.startOffset := by
    unfold OrderedMap.ceiling
    cases content.filledChunks.entries.find? fun entry => newLen ≤ entry.1 <;> rfl
  obtain ⟨sameStart, atNewLen, oldHolds⟩ := Chunk.truncate_holds (starts ▸ cut) shortened
  refine ⟨atNewLen, ?_⟩
  intro within
  refine ⟨⟨⟨first, le, ?_⟩, ?_, ?_⟩, ?_⟩
  · change Chained first (content.filledChunks.entries.filter _) activeChunk.startOffset
    rw [sameStart, starts]
    exact keptChain
  · have ends : activeChunk.startOffset + activeChunk.len = newLen := atNewLen
    rw [sameStart] at ends
    change activeChunk.len ≤ chunkSize
    cases found : content.filledChunks.ceiling newLen with
    | none =>
      rw [found] at ends
      have total : newLen ≤ content.activeChunk.startOffset + content.activeChunk.len := within
      simp only [Option.map_none, Option.getD_none] at ends
      omega
    | some entry =>
      rw [found] at ends
      obtain ⟨member, reached, -⟩ := OrderedMap.ceiling_eq_some.mp found
      obtain ⟨-, -, stops, entryRoom, -⟩ := chained.mem member
      unfold Chunk.stopOffset at stops
      simp only [Option.map_some, Option.getD_some] at ends
      omega
  · exact Nat.le_trans live (le_of_eq atNewLen.symm)
  · intro offset bytes holds before
    obtain ⟨nonempty, held⟩ := holds
    refine ⟨nonempty, ?_⟩
    rcases held with held | ⟨entry, member, held⟩
    · left
      have noneFound : content.filledChunks.ceiling newLen = none := by
        apply OrderedMap.ceiling_eq_none.mpr
        intro entry member
        have := (chained.mem member).2.2.2.2
        have := held.1
        omega
      rw [noneFound] at oldHolds
      exact oldHolds offset bytes held before
    · obtain ⟨-, -, stops, -, -⟩ := chained.mem member
      have heldInside := held.2.1
      by_cases reached : newLen ≤ entry.1
      · left
        have found : content.filledChunks.ceiling newLen = some entry := by
          apply OrderedMap.ceiling_eq_some.mpr
          refine ⟨member, reached, ?_⟩
          intro other otherMember otherReached
          by_contra less
          have separate := chained.apart otherMember member (Nat.lt_of_not_le less)
          have after := held.1
          omega
        rw [found] at oldHolds
        exact oldHolds offset bytes held before
      · right
        have kept := (OrderedMap.mem_splitOff_below content.filledChunks newLen).mpr ⟨member, Nat.lt_of_not_le reached⟩
        exact ⟨entry, kept, held⟩

theorem truncateFront_spec {newStart : ℕ} (covers : content.Covers start) (forward : start ≤ newStart)
    (inside : newStart ≤ content.endOffset) :
    (content.truncateFront newStart).Covers newStart ∧
      ∀ offset bytes, content.Holds offset bytes → newStart ≤ offset →
        (content.truncateFront newStart).Holds offset bytes := by
  obtain ⟨⟨first, le, chained⟩, room, -⟩ := covers
  refine ⟨⟨chained.dropWhile (Nat.le_trans le forward), room, inside⟩, ?_⟩
  intro offset bytes holds live
  obtain ⟨nonempty, held⟩ := holds
  refine ⟨nonempty, ?_⟩
  rcases held with held | ⟨entry, member, held⟩
  · exact Or.inl held
  · right
    obtain ⟨-, -, stops, -, -⟩ := chained.mem member
    have heldInside := held.2.1
    have after := held.1
    refine ⟨entry, ?_, held⟩
    have split := takeWhile_append_dropWhile (p := fun entry : ℕ × Chunk => decide (entry.1 < newStart))
      (l := content.filledChunks.entries)
    rw [← split] at member
    rcases List.mem_append.mp member with dropped | kept
    · have before := List.all_eq_true.mp all_takeWhile _ dropped
      simp only [decide_eq_true_eq] at before
      omega
    · exact kept

end Content

end Warp.Grid
