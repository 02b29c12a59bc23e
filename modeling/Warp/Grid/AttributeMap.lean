import Warp.Lib.OrderedMap

namespace Warp.Grid

universe u

def usizeMax : ℕ := 2 ^ 64 - 1

structure AttributeMap (A : Type u) where
  map : OrderedMap ℕ A
  tailValue : A

/-- An iterator over the values of an attribute map; `inner` is what is left of the map's range. -/
structure Iter (A : Type u) where
  curOffset : ℕ
  curRange : ℕ × A
  inner : List (ℕ × A)
  tailValue : A

namespace AttributeMap

variable {A : Type u}

def new (startingValue : A) : AttributeMap A := ⟨.empty, startingValue⟩

def truncate (self : AttributeMap A) (newLen : ℕ) : AttributeMap A :=
  let (map, truncatedRanges) := self.map.splitOff newLen
  match truncatedRanges.first with
  | some (_, tailValue) => ⟨map, tailValue⟩
  | none => ⟨map, self.tailValue⟩

def truncateFront (self : AttributeMap A) (newStartOffset : ℕ) : AttributeMap A :=
  { self with map := (self.map.splitOff newStartOffset).2 }

def lastEndOffset (self : AttributeMap A) : ℕ :=
  match self.map.last with
  | some (key, _) => key
  | none => 0

/-- What `push_attribute_change` asserts of the start of the range in a debug build. -/
def PushAsserted (self : AttributeMap A) (start : ℕ) : Prop :=
  if start = 0 then self.map.last = none else self.lastEndOffset < start

instance (self : AttributeMap A) (start : ℕ) : Decidable (self.PushAsserted start) := by
  have := decidable_of_iff (self.map.last.isNone = true) Option.isNone_iff_eq_none
  unfold PushAsserted
  infer_instance

def pushAttributeChange [DecidableEq A] (debugAssertions : Bool) (self : AttributeMap A) (start : ℕ) (value : A) :
    Option (AttributeMap A) :=
  if value = self.tailValue then some self
  else if debugAssertions && !decide (self.PushAsserted start) then none
  else if start = 0 then some { self with tailValue := value }
  else some ⟨self.map.insert (start - 1) self.tailValue, value⟩

def tail (self : AttributeMap A) : A := self.tailValue

end AttributeMap

namespace Iter

variable {A : Type u}

def nextRange (tail : A) : List (ℕ × A) → (ℕ × A) × List (ℕ × A)
  | [] => ((usizeMax, tail), [])
  | range :: inner => (range, inner)

def new (map : AttributeMap A) (startOffset : ℕ) : Iter A :=
  let (curRange, inner) := nextRange map.tailValue (map.map.splitOff startOffset).2.entries
  ⟨startOffset, curRange, inner, map.tailValue⟩

/-- The loop of `nth`: the first range that does not end before the offset. -/
def seekRange (tail : A) (offset : ℕ) : ℕ × A → List (ℕ × A) → (ℕ × A) × List (ℕ × A)
  | curRange, [] => if offset > curRange.1 then ((usizeMax, tail), []) else (curRange, [])
  | curRange, range :: inner =>
    if offset > curRange.1 then seekRange tail offset range inner else (curRange, range :: inner)

def nth (self : Iter A) (n : ℕ) : A × Iter A :=
  let curOffset := self.curOffset + n
  let (curRange, inner) := seekRange self.tailValue curOffset self.curRange self.inner
  (curRange.2, ⟨curOffset + 1, curRange, inner, self.tailValue⟩)

def next (self : Iter A) : A × Iter A := self.nth 0

def take : ℕ → Iter A → List A
  | 0, _ => []
  | n + 1, self => self.next.1 :: take n self.next.2

end Iter

namespace AttributeMap

variable {A : Type u}

def iterFrom (self : AttributeMap A) (startOffset : ℕ) : Iter A := Iter.new self startOffset

def value (self : AttributeMap A) (offset : ℕ) : A := (self.map.ceiling offset).elim self.tailValue Prod.snd

end AttributeMap

section Iteration

variable {A : Type u}

/-- The iterator still holds the ranges of every offset from its own on. -/
def Iter.Reads (iter : Iter A) (map : AttributeMap A) : Prop :=
  iter.tailValue = map.tailValue ∧ ∀ offset, iter.curOffset ≤ offset → offset ≤ usizeMax →
    (((iter.curRange :: iter.inner).find? fun range => offset ≤ range.1).elim map.tailValue Prod.snd) = map.value offset

theorem Iter.reads_new (map : AttributeMap A) (startOffset : ℕ) : (map.iterFrom startOffset).Reads map := by
  refine ⟨rfl, ?_⟩
  intro offset start bound
  have start : startOffset ≤ offset := start
  have sameRange : ((map.map.splitOff startOffset).2.entries.find? fun range => offset ≤ range.1) =
      map.map.ceiling offset := by
    simp only [OrderedMap.splitOff, OrderedMap.ceiling, List.find?_filter]
    congr 1
    funext range
    by_cases inside : offset ≤ range.1
    · simp [inside, Nat.le_trans start inside]
    · simp [inside]
  rw [AttributeMap.value, ← sameRange]
  simp only [AttributeMap.iterFrom, Iter.new]
  cases (map.map.splitOff startOffset).2.entries with
  | nil => simp [Iter.nextRange, bound]
  | cons range inner => rfl

theorem Iter.seekRange_spec (tail : A) (offset : ℕ) (curRange : ℕ × A)
    (inner : List (ℕ × A)) :
    let (found, rest) := Iter.seekRange tail offset curRange inner
    found.2 = ((curRange :: inner).find? fun range => offset ≤ range.1).elim tail Prod.snd ∧
      ∀ later, offset ≤ later → later ≤ usizeMax →
        ((found :: rest).find? fun range => later ≤ range.1).elim tail Prod.snd =
          ((curRange :: inner).find? fun range => later ≤ range.1).elim tail Prod.snd := by
  induction inner generalizing curRange with
  | nil =>
    by_cases past : offset > curRange.1
    · have notInside : ¬ offset ≤ curRange.1 := by omega
      simp only [Iter.seekRange, past, ↓reduceIte, List.find?_cons, notInside, decide_false, List.find?_nil,
        Option.elim_none, true_and]
      intro later start end'
      have notLater : ¬ later ≤ curRange.1 := by omega
      simp [end', notLater]
    · have inside : offset ≤ curRange.1 := by omega
      simp [Iter.seekRange, past, inside]
  | cons range inner ih =>
    by_cases past : offset > curRange.1
    · have notInside : ¬ offset ≤ curRange.1 := by omega
      obtain ⟨found, rest⟩ := ih range
      rw [Iter.seekRange, if_pos past]
      refine ⟨by simpa [notInside] using found, ?_⟩
      intro later start end'
      have notLater : ¬ later ≤ curRange.1 := by omega
      simpa [notLater] using rest later start end'
    · have inside : offset ≤ curRange.1 := by omega
      simp [Iter.seekRange, past, inside]

theorem Iter.Reads.nth {iter : Iter A} {map : AttributeMap A} (reads : iter.Reads map) (n : ℕ)
    (bound : iter.curOffset + n ≤ usizeMax) :
    (iter.nth n).1 = map.value (iter.curOffset + n) ∧ (iter.nth n).2.Reads map := by
  obtain ⟨sameTail, ranges⟩ := reads
  obtain ⟨found, rest⟩ := Iter.seekRange_spec iter.tailValue (iter.curOffset + n) iter.curRange iter.inner
  refine ⟨?_, sameTail, ?_⟩
  · refine found.trans ?_
    rw [sameTail]
    exact ranges _ (Nat.le_add_right _ _) bound
  · intro offset start end'
    have start : iter.curOffset + n + 1 ≤ offset := start
    have same := rest offset (by omega) end'
    refine Eq.trans ?_ (ranges offset (by omega) end')
    rw [← sameTail]
    exact same

end Iteration

/-- The changes that a map was told of, over the offsets from `start` to `stop` that its content has. -/
structure History (A : Type u) where
  start : ℕ
  stop : ℕ
  changes : List (ℕ × A)

def History.assigned {A : Type u} (history : History A) (startingValue : A) (offset : ℕ) : A :=
  ((history.changes.filter fun change => change.1 ≤ offset).getLast?).elim startingValue Prod.snd

/-- The calls on a map; `grow` only adds content. -/
inductive AttributeCall (A : Type u) where
  | grow (newStop : ℕ)
  | pushAttributeChange (start : ℕ) (value : A)
  | truncate (newLen : ℕ)
  | truncateFront (newStart : ℕ)

namespace AttributeCall

variable {A : Type u}

/-- A change survives a truncation to the offset at which it starts. -/
def record (history : History A) : AttributeCall A → History A
  | grow newStop => { history with stop := newStop }
  | pushAttributeChange start value => { history with stop := start, changes := history.changes ++ [(start, value)] }
  | truncate newLen =>
    { history with stop := newLen, changes := history.changes.filter fun change => change.1 ≤ newLen }
  | truncateFront newStart => { history with start := newStart }

variable [DecidableEq A]

def apply (debugAssertions : Bool) (map : AttributeMap A) : AttributeCall A → Option (AttributeMap A)
  | grow _ => some map
  | pushAttributeChange start value => map.pushAttributeChange debugAssertions start value
  | truncate newLen => some (map.truncate newLen)
  | truncateFront newStart => some (map.truncateFront newStart)

omit [DecidableEq A] in
/-- Changes are pushed at the end of the content and as the assertions ask; truncations stay within the content. -/
def Legal (history : History A) (map : AttributeMap A) : AttributeCall A → Prop
  | grow newStop => history.stop ≤ newStop
  | pushAttributeChange start _ => history.stop ≤ start ∧ map.PushAsserted start
  | truncate newLen => history.start ≤ newLen ∧ newLen ≤ history.stop
  | truncateFront newStart => history.start ≤ newStart ∧ newStart ≤ history.stop

omit [DecidableEq A] in
/-- A change does not start right after a stored range that holds another value than the tail. -/
def KeepsRanges (map : AttributeMap A) : AttributeCall A → Prop
  | pushAttributeChange start value =>
    value = map.tailValue ∨ start = 0 ∨ ∀ range ∈ map.map.entries, range.1 = start - 1 → range.2 = map.tailValue
  | _ => True

end AttributeCall

end Warp.Grid
