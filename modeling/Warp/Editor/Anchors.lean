import Warp.Lib.HashMap

namespace Warp.Editor

abbrev AnchorId := ℕ

inductive AnchorSide where
  | left
  | right
deriving DecidableEq

structure AnchorState where
  live : Bool
  offset : ℕ
  side : AnchorSide
deriving DecidableEq

structure AnchorUpdate where
  start : ℕ
  oldCharacterCount : ℕ
  newCharacterCount : ℕ
  clamp : Bool
deriving DecidableEq

namespace AnchorUpdate

variable (self : AnchorUpdate)

def oldEnd : ℕ := self.start + self.oldCharacterCount

def newEnd : ℕ := self.start + self.newCharacterCount

/-- What becomes of an anchor. One that goes is not retained. -/
def retain (state : AnchorState) : Option AnchorState :=
  if ¬ state.live then none
  else if self.oldEnd < state.offset ∨ (state.side = .right ∧ state.offset = self.oldEnd) then
    some { state with offset := state.offset + self.newEnd - self.oldEnd }
  else if (self.clamp ∧ self.newEnd < state.offset) ∨
      (state.offset = self.oldEnd ∧ self.newEnd < state.offset ∧ state.side = .left) then
    some { state with offset := self.newEnd }
  else if state.offset ≤ self.newEnd then some state
  else none

end AnchorUpdate

structure Anchors where
  nextId : AnchorId
  anchors : HashMap AnchorId AnchorState

namespace Anchors

def new : Anchors := ⟨0, .empty⟩

variable (self : Anchors)

def updateAnchor (anchor : AnchorId) (offset : ℕ) : Anchors :=
  { self with
    anchors := match self.anchors.get? anchor with
      | some state => self.anchors.insert anchor { state with offset := offset }
      | none => self.anchors }

/-- The ids wrap around. -/
def createAnchor (offset : ℕ) (side : AnchorSide) : AnchorId × Anchors :=
  (self.nextId, ⟨(self.nextId + 1) % 2 ^ 64, self.anchors.insert self.nextId ⟨true, offset, side⟩⟩)

def drop (anchor : AnchorId) : Anchors :=
  { self with
    anchors := match self.anchors.get? anchor with
      | some state => self.anchors.insert anchor { state with live := false }
      | none => self.anchors }

def update (update : AnchorUpdate) : Anchors := { self with anchors := self.anchors.retainMap update.retain }

def resolve (anchor : AnchorId) : Option ℕ := (self.anchors.get? anchor).map AnchorState.offset

/-- The anchors of some content, by its length, after any edits within it and any handles made, moved and dropped. -/
inductive Reached : Anchors → ℕ → Prop where
  | new (length : ℕ) : Reached new length
  | createAnchor {self length offset} (side : AnchorSide) : Reached self length → offset ≤ length →
      Reached (self.createAnchor offset side).2 length
  | updateAnchor {self length offset} (anchor : AnchorId) : Reached self length → offset ≤ length →
      Reached (self.updateAnchor anchor offset) length
  | drop {self length} (anchor : AnchorId) : Reached self length → Reached (self.drop anchor) length
  | update {self length} {update : AnchorUpdate} : Reached self length → update.oldEnd ≤ length →
      Reached (self.update update) (length - update.oldCharacterCount + update.newCharacterCount)

def Within (anchors : Anchors) (length : ℕ) : Prop :=
  ∀ anchor state, anchors.anchors.get? anchor = some state → state.offset ≤ length

structure Follows (update : AnchorUpdate) (before after : Anchors) : Prop where
  unmoved : ∀ anchor state, before.anchors.get? anchor = some state → state.live → state.offset < update.start →
    after.anchors.get? anchor = some state
  shifted : ∀ anchor state, before.anchors.get? anchor = some state → state.live →
    (update.oldEnd < state.offset ∨ (state.side = .right ∧ state.offset = update.oldEnd)) →
    after.anchors.get? anchor =
      some { state with offset := state.offset - update.oldCharacterCount + update.newCharacterCount }
  /-- The anchors that are inside keep their offset, if the new text reaches it. -/
  inside : ∀ anchor state, before.anchors.get? anchor = some state → state.live → update.start ≤ state.offset →
    (state.offset < update.oldEnd ∨ (state.side = .left ∧ state.offset = update.oldEnd)) →
    after.anchors.get? anchor =
      if state.offset ≤ update.newEnd then some state
      else if update.clamp ∨ state.offset = update.oldEnd then some { state with offset := update.newEnd }
      else none
  ordered : ∀ first second a b a' b', before.anchors.get? first = some a → before.anchors.get? second = some b →
    a.side = b.side → a.offset ≤ b.offset → after.anchors.get? first = some a' → after.anchors.get? second = some b' →
    a'.offset ≤ b'.offset
  disposed : ∀ anchor state, before.anchors.get? anchor = some state → ¬ state.live → after.anchors.get? anchor = none

end Anchors

section Updates

variable {edit : AnchorUpdate} {state state' a b a' b' : AnchorState} {length : ℕ}

namespace AnchorUpdate

theorem retain_before (live : state.live) (before : state.offset < edit.start) : edit.retain state = some state := by
  have oldEnd : edit.oldEnd = edit.start + edit.oldCharacterCount := rfl
  have newEnd : edit.newEnd = edit.start + edit.newCharacterCount := rfl
  rw [retain, if_neg (by simp [live]), if_neg (by omega), if_neg (by omega), if_pos (by omega)]

theorem retain_after (live : state.live)
    (after : edit.oldEnd < state.offset ∨ (state.side = .right ∧ state.offset = edit.oldEnd)) :
    edit.retain state =
      some { state with offset := state.offset - edit.oldCharacterCount + edit.newCharacterCount } := by
  have oldEnd : edit.oldEnd = edit.start + edit.oldCharacterCount := rfl
  have newEnd : edit.newEnd = edit.start + edit.newCharacterCount := rfl
  have moved : state.offset + edit.newEnd - edit.oldEnd =
      state.offset - edit.oldCharacterCount + edit.newCharacterCount := by omega
  rw [retain, if_neg (by simp [live]), if_pos after, moved]

theorem retain_inside (live : state.live)
    (inside : state.offset < edit.oldEnd ∨ (state.side = .left ∧ state.offset = edit.oldEnd)) :
    edit.retain state =
      if state.offset ≤ edit.newEnd then some state
      else if edit.clamp ∨ state.offset = edit.oldEnd then some { state with offset := edit.newEnd }
      else none := by
  have stays : ¬ (edit.oldEnd < state.offset ∨ (state.side = .right ∧ state.offset = edit.oldEnd)) := by
    rintro (beyond | ⟨right, atEnd⟩)
    · omega
    · rcases inside with before | ⟨left, -⟩
      · omega
      · rw [left] at right
        cases right
  rw [retain, if_neg (by simp [live]), if_neg stays]
  by_cases reached : state.offset ≤ edit.newEnd
  · rw [if_neg (by omega), if_pos reached, if_pos reached]
  · have same : ((edit.clamp ∧ edit.newEnd < state.offset) ∨
        (state.offset = edit.oldEnd ∧ edit.newEnd < state.offset ∧ state.side = .left)) ↔
        edit.clamp ∨ state.offset = edit.oldEnd := by
      constructor
      · rintro (⟨clamp, -⟩ | ⟨atEnd, -⟩)
        · exact .inl clamp
        · exact .inr atEnd
      · rintro (clamp | atEnd)
        · exact .inl ⟨clamp, by omega⟩
        · rcases inside with before | ⟨left, -⟩
          · omega
          · exact .inr ⟨atEnd, by omega, left⟩
    rw [if_neg reached, if_neg reached]
    exact if_congr same rfl rfl

theorem retain_cases (kept : edit.retain state = some state') :
    state'.side = state.side ∧
      ((state.offset < edit.start ∧ state'.offset = state.offset) ∨
        ((edit.oldEnd < state.offset ∨ (state.side = .right ∧ state.offset = edit.oldEnd)) ∧
          state'.offset = state.offset - edit.oldCharacterCount + edit.newCharacterCount) ∨
        (edit.start ≤ state.offset ∧
          (state.offset < edit.oldEnd ∨ (state.side = .left ∧ state.offset = edit.oldEnd)) ∧
          state'.offset = min state.offset edit.newEnd)) := by
  have live : state.live := by
    by_contra dead
    rw [retain, if_pos dead] at kept
    cases kept
  by_cases before : state.offset < edit.start
  · rw [retain_before live before] at kept
    cases kept
    exact ⟨rfl, .inl ⟨before, rfl⟩⟩
  by_cases after : edit.oldEnd < state.offset ∨ (state.side = .right ∧ state.offset = edit.oldEnd)
  · rw [retain_after live after] at kept
    cases kept
    exact ⟨rfl, .inr (.inl ⟨after, rfl⟩)⟩
  have inside : state.offset < edit.oldEnd ∨ (state.side = .left ∧ state.offset = edit.oldEnd) := by
    cases side : state.side with
    | left =>
      rw [side] at after
      simp only [true_and, reduceCtorEq, false_and, or_false] at after ⊢
      omega
    | right =>
      rw [side] at after
      simp only [true_and, reduceCtorEq, false_and, or_false] at after ⊢
      omega
  rw [retain_inside live inside] at kept
  split at kept
  · cases kept
    exact ⟨rfl, .inr (.inr ⟨by omega, inside, by omega⟩)⟩
  split at kept
  · cases kept
    exact ⟨rfl, .inr (.inr ⟨by omega, inside, by simp only; omega⟩)⟩
  · cases kept

theorem retain_within (kept : edit.retain state = some state') (within : state.offset ≤ length)
    (inText : edit.oldEnd ≤ length) :
    state'.offset ≤ length - edit.oldCharacterCount + edit.newCharacterCount := by
  have oldEnd : edit.oldEnd = edit.start + edit.oldCharacterCount := rfl
  have newEnd : edit.newEnd = edit.start + edit.newCharacterCount := rfl
  obtain ⟨-, cases⟩ := retain_cases kept
  omega

theorem retain_ordered (same : a.side = b.side) (le : a.offset ≤ b.offset) (keptA : edit.retain a = some a')
    (keptB : edit.retain b = some b') : a'.offset ≤ b'.offset := by
  have oldEnd : edit.oldEnd = edit.start + edit.oldCharacterCount := rfl
  have newEnd : edit.newEnd = edit.start + edit.newCharacterCount := rfl
  obtain ⟨-, casesA⟩ := retain_cases keptA
  obtain ⟨-, casesB⟩ := retain_cases keptB
  rw [same] at casesA
  cases side : b.side with
  | left =>
    rw [side] at casesA casesB
    simp only [reduceCtorEq, false_and, or_false, true_and] at casesA casesB
    omega
  | right =>
    rw [side] at casesA casesB
    simp only [reduceCtorEq, false_and, or_false, true_and] at casesA casesB
    omega

end AnchorUpdate

namespace Anchors

variable {self : Anchors}

theorem update_get? (self : Anchors) (edit : AnchorUpdate) (anchor : AnchorId) :
    (self.update edit).anchors.get? anchor = (self.anchors.get? anchor).bind edit.retain :=
  HashMap.get?_retainMap _ _ _

theorem Within.updateAnchor (within : self.Within length) (anchor : AnchorId) {offset : ℕ} (le : offset ≤ length) :
    (self.updateAnchor anchor offset).Within length := by
  intro other state found
  unfold Anchors.updateAnchor at found
  cases old : self.anchors.get? anchor with
  | none =>
    rw [old] at found
    exact within other state found
  | some before =>
    rw [old] at found
    rw [HashMap.get?_insert] at found
    split at found
    · cases found
      exact le
    · exact within other state found

theorem Within.drop (within : self.Within length) (anchor : AnchorId) : (self.drop anchor).Within length := by
  intro other state found
  unfold Anchors.drop at found
  cases old : self.anchors.get? anchor with
  | none =>
    rw [old] at found
    exact within other state found
  | some before =>
    rw [old] at found
    rw [HashMap.get?_insert] at found
    split at found
    · cases found
      exact within anchor before old
    · exact within other state found

theorem Within.update (within : self.Within length) (inText : edit.oldEnd ≤ length) :
    (self.update edit).Within (length - edit.oldCharacterCount + edit.newCharacterCount) := by
  intro anchor state found
  rw [update_get?] at found
  obtain ⟨before, old, kept⟩ := Option.bind_eq_some_iff.mp found
  exact AnchorUpdate.retain_within kept (within anchor before old) inText

theorem Reached.within (reached : Reached self length) : self.Within length := by
  induction reached with
  | new length => nofun
  | createAnchor side reached le ih =>
    intro other state found
    rw [Anchors.createAnchor, HashMap.get?_insert] at found
    split at found
    · cases found
      exact le
    · exact ih other state found
  | updateAnchor anchor reached le ih => exact ih.updateAnchor anchor le
  | drop anchor reached ih => exact ih.drop anchor
  | update reached inText ih => exact ih.update inText

theorem update_follows (self : Anchors) (edit : AnchorUpdate) : Follows edit self (self.update edit) where
  unmoved anchor state found live before := by
    rw [update_get?, found]
    exact AnchorUpdate.retain_before live before
  shifted anchor state found live after := by
    rw [update_get?, found]
    exact AnchorUpdate.retain_after live after
  inside anchor state found live _ inside := by
    rw [update_get?, found]
    exact AnchorUpdate.retain_inside live inside
  ordered first second a b a' b' foundA foundB same le keptA keptB := by
    rw [update_get?, foundA] at keptA
    rw [update_get?, foundB] at keptB
    exact AnchorUpdate.retain_ordered same le keptA keptB
  disposed anchor state found dead := by
    rw [update_get?, found]
    exact if_pos dead

theorem reached_follows (reached : Reached self length) (inText : edit.oldEnd ≤ length) :
    Follows edit self (self.update edit) ∧
      (self.update edit).Within (length - edit.oldCharacterCount + edit.newCharacterCount) :=
  ⟨self.update_follows edit, reached.within.update inText⟩

theorem replaced_follows :
    Follows ⟨2, 4, 1, true⟩ (new.createAnchor 5 .right).2 ((new.createAnchor 5 .right).2.update ⟨2, 4, 1, true⟩) ∧
      ((new.createAnchor 5 .right).2.update ⟨2, 4, 1, true⟩).Within 7 :=
  reached_follows (.createAnchor .right (.new 10) (by decide)) (by decide)

/-- Whatever its side is, an anchor inside of the replaced text goes to neither of the edges. -/
theorem replaced_inside_stays :
    Reached (new.createAnchor 3 .left).2 10 ∧
      ((new.createAnchor 3 .left).2.update ⟨2, 4, 6, true⟩).resolve 0 = some 3 ∧
      Reached (new.createAnchor 3 .right).2 10 ∧
      ((new.createAnchor 3 .right).2.update ⟨2, 4, 6, true⟩).resolve 0 = some 3 :=
  ⟨.createAnchor .left (.new 10) (by decide), by decide, .createAnchor .right (.new 10) (by decide), by decide⟩

theorem get?_foldl_update (edits : List AnchorUpdate) (self : Anchors) (anchor : AnchorId) :
    (edits.foldl update self).anchors.get? anchor =
      (self.anchors.get? anchor).bind (edits.foldlM fun state edit => edit.retain state) := by
  induction edits generalizing self with
  | nil => simp
  | cons edit edits ih => simp [ih, update_get?, Option.bind_assoc]

/-- Whatever is edited, anchors of one side keep their order for as long as both are there. -/
theorem edits_ordered (edits : List AnchorUpdate) (self : Anchors) (first second : AnchorId)
    (foundA : self.anchors.get? first = some a) (foundB : self.anchors.get? second = some b) (same : a.side = b.side)
    (le : a.offset ≤ b.offset) (keptA : (edits.foldl update self).anchors.get? first = some a')
    (keptB : (edits.foldl update self).anchors.get? second = some b') : a'.offset ≤ b'.offset := by
  rw [get?_foldl_update, foundA, Option.bind_some] at keptA
  rw [get?_foldl_update, foundB, Option.bind_some] at keptB
  clear foundA foundB
  induction edits generalizing a b with
  | nil =>
    cases keptA
    cases keptB
    exact le
  | cons edit edits ih =>
    obtain ⟨nextA, retainedA, laterA⟩ := Option.bind_eq_some_iff.mp keptA
    obtain ⟨nextB, retainedB, laterB⟩ := Option.bind_eq_some_iff.mp keptB
    have sides : nextA.side = nextB.side := by
      rw [(AnchorUpdate.retain_cases retainedA).1, (AnchorUpdate.retain_cases retainedB).1, same]
    exact ih sides (AnchorUpdate.retain_ordered same le retainedA retainedB) laterA laterB

theorem edits_ordered_two : AnchorState.offset ⟨true, 3, .left⟩ ≤ AnchorState.offset ⟨true, 4, .left⟩ :=
  edits_ordered [⟨0, 1, 0, true⟩, ⟨3, 1, 3, true⟩] ((new.createAnchor 4 .left).2.createAnchor 5 .left).2 0 1
    rfl rfl rfl (by decide) rfl rfl

end Anchors

end Updates

end Warp.Editor
