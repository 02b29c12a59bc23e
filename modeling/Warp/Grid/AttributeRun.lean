import Warp.Grid.AttributeMap

namespace Warp.Grid

universe u

variable {A : Type u}

structure Represents (startingValue : A) (history : History A) (map : AttributeMap A) : Prop where
  below : ∀ range ∈ map.map.entries, range.1 < history.stop
  values : ∀ offset, history.start ≤ offset → map.value offset = history.assigned startingValue offset

theorem represents_new (startingValue : A) : Represents startingValue ⟨0, 0, []⟩ (AttributeMap.new startingValue) where
  below range member := by cases member
  values _ _ := rfl

namespace AttributeMap

theorem value_eq_of_ceiling {map : AttributeMap A} {offset : ℕ} {range : ℕ × A}
    (member : range ∈ map.map.entries) (inside : offset ≤ range.1)
    (least : ∀ other ∈ map.map.entries, offset ≤ other.1 → range.1 ≤ other.1) : map.value offset = range.2 := by
  rw [value, OrderedMap.ceiling_eq_some.mpr ⟨member, inside, least⟩]
  rfl

variable {map : AttributeMap A}

theorem value_eq_tail {offset : ℕ} (past : ∀ range ∈ map.map.entries, range.1 < offset) :
    map.value offset = map.tailValue := by
  rw [value, OrderedMap.ceiling_eq_none.mpr past]
  rfl

theorem value_cases (map : AttributeMap A) (offset : ℕ) :
    (∃ range ∈ map.map.entries, offset ≤ range.1 ∧ (∀ other ∈ map.map.entries, offset ≤ other.1 → range.1 ≤ other.1) ∧
      map.value offset = range.2) ∨
    (∀ range ∈ map.map.entries, range.1 < offset) ∧ map.value offset = map.tailValue := by
  cases found : map.map.ceiling offset with
  | none =>
    have past := OrderedMap.ceiling_eq_none.mp found
    exact .inr ⟨past, value_eq_tail past⟩
  | some range =>
    obtain ⟨member, inside, least⟩ := OrderedMap.ceiling_eq_some.mp found
    exact .inl ⟨range, member, inside, least, value_eq_of_ceiling member inside least⟩

theorem truncate_value (map : AttributeMap A) (newLen offset : ℕ) :
    (map.truncate newLen).value offset = map.value (min offset newLen) := by
  have tail : (map.truncate newLen).tailValue = map.value newLen := by
    simp only [truncate, OrderedMap.first_splitOff, value]
    cases map.map.ceiling newLen <;> rfl
  have entries (range : ℕ × A) : range ∈ (map.truncate newLen).map.entries ↔ range ∈ map.map.entries ∧ range.1 < newLen := by
    have same : (map.truncate newLen).map = (map.map.splitOff newLen).1 := by
      simp only [truncate]
      cases (map.map.splitOff newLen).2.first <;> rfl
    rw [same, OrderedMap.mem_splitOff_below]
  rcases value_cases (map.truncate newLen) offset with ⟨range, member, inside, least, value⟩ | ⟨past, value⟩
  · obtain ⟨member, below⟩ := (entries range).mp member
    have same : min offset newLen = offset := by omega
    rw [value, same]
    refine (value_eq_of_ceiling member inside ?_).symm
    intro other isOther otherInside
    by_cases otherBelow : other.1 < newLen
    · exact least other ((entries other).mpr ⟨isOther, otherBelow⟩) otherInside
    · omega
  · rw [value, tail]
    by_cases above : newLen ≤ offset
    · rw [Nat.min_eq_right above]
    · have gap : ∀ range ∈ map.map.entries, range.1 < newLen → range.1 < offset :=
        fun range member below => past range ((entries range).mpr ⟨member, below⟩)
      rw [Nat.min_eq_left (by omega)]
      -- No range ends between the two offsets, so they lie in one range.
      rcases value_cases map newLen with ⟨range, member, inside, least, value⟩ | ⟨all, value⟩
      · rw [value]
        refine (value_eq_of_ceiling member (by omega) ?_).symm
        intro other isOther otherInside
        have notBelow : ¬ other.1 < newLen := fun below => absurd (gap other isOther below) (by omega)
        exact least other isOther (by omega)
      · rw [value]
        exact (value_eq_tail fun range member => gap range member (all range member)).symm

theorem truncateFront_value (map : AttributeMap A) {newStart offset : ℕ} (live : newStart ≤ offset) :
    (map.truncateFront newStart).value offset = map.value offset := by
  have entries (range : ℕ × A) :
      range ∈ (map.truncateFront newStart).map.entries ↔ range ∈ map.map.entries ∧ newStart ≤ range.1 := by
    simp [truncateFront]
  rcases value_cases map offset with ⟨range, member, inside, least, value⟩ | ⟨past, value⟩
  · rw [value]
    refine value_eq_of_ceiling ((entries range).mpr ⟨member, Nat.le_trans live inside⟩) inside ?_
    exact fun other isOther => least other ((entries other).mp isOther).1
  · rw [value]
    exact value_eq_tail fun range member => past range ((entries range).mp member).1

variable [DecidableEq A]

theorem pushAttributeChange_spec {debugAssertions : Bool} {start : ℕ} {newValue : A}
    (asserted : map.PushAsserted start) (keeps : (AttributeCall.pushAttributeChange start newValue).KeepsRanges map)
    (below : ∀ range ∈ map.map.entries, range.1 < start) :
    ∃ result, map.pushAttributeChange debugAssertions start newValue = some result ∧
      (∀ range ∈ result.map.entries, range.1 < start) ∧
      ∀ offset, result.value offset = if start ≤ offset then newValue else map.value offset := by
  by_cases same : newValue = map.tailValue
  · refine ⟨map, by simp [pushAttributeChange, same], below, ?_⟩
    intro offset
    by_cases after : start ≤ offset
    · rw [if_pos after, same]
      exact value_eq_tail fun range member => Nat.lt_of_lt_of_le (below range member) after
    · rw [if_neg after]
  · by_cases first : start = 0
    · subst first
      have none : map.map.entries = [] := by
        refine List.eq_nil_iff_forall_not_mem.mpr ?_
        intro range member
        exact absurd (below range member) (Nat.not_lt_zero _)
      refine ⟨{ map with tailValue := newValue }, by simp [pushAttributeChange, same, asserted], below, ?_⟩
      intro offset
      rw [if_pos (Nat.zero_le _)]
      exact value_eq_tail fun range member => by simp [none] at member
    · have pushed : map.pushAttributeChange debugAssertions start newValue =
          some ⟨map.map.insert (start - 1) map.tailValue, newValue⟩ := by
        simp [pushAttributeChange, same, asserted, first]
      have entries (range : ℕ × A) : range ∈ (map.map.insert (start - 1) map.tailValue).entries ↔
          range = (start - 1, map.tailValue) ∨ range ∈ map.map.entries ∧ range.1 ≠ start - 1 :=
        map.map.mem_insert (start - 1)
      have lastRange {offset : ℕ} (before : ¬ start ≤ offset)
          (least : ∀ other ∈ map.map.entries, offset ≤ other.1 → start - 1 ≤ other.1) :
          value ⟨map.map.insert (start - 1) map.tailValue, newValue⟩ offset = map.tailValue := by
        refine @value_eq_of_ceiling _ _ _ (start - 1, map.tailValue) ((entries _).mpr (.inl rfl))
          (Nat.le_sub_one_of_lt (Nat.not_le.mp before)) ?_
        intro other isOther otherInside
        rcases (entries other).mp isOther with rfl | ⟨isOther, -⟩
        · exact Nat.le_refl _
        · exact least other isOther otherInside
      refine ⟨_, pushed, ?_, ?_⟩
      · intro range member
        rcases (entries range).mp member with rfl | ⟨member, -⟩
        · exact Nat.sub_lt (Nat.pos_of_ne_zero first) Nat.one_pos
        · exact below range member
      · intro offset
        by_cases after : start ≤ offset
        · rw [if_pos after]
          refine value_eq_tail ?_
          intro range member
          rcases (entries range).mp member with rfl | ⟨member, -⟩
          · change start - 1 < offset
            omega
          · exact Nat.lt_of_lt_of_le (below range member) after
        · rw [if_neg after]
          have kept := (keeps.resolve_left same).resolve_left first
          rcases value_cases map offset with ⟨range, member, inside, least, value⟩ | ⟨past, value⟩
          · rw [value]
            by_cases last : range.1 = start - 1
            · have tail := kept range member last
              rw [tail]
              exact lastRange after fun other isOther otherInside => last ▸ least other isOther otherInside
            · refine value_eq_of_ceiling ((entries range).mpr (.inr ⟨member, last⟩)) inside ?_
              intro other isOther otherInside
              rcases (entries other).mp isOther with rfl | ⟨isOther, -⟩
              · exact Nat.le_sub_one_of_lt (below range member)
              · exact least other isOther otherInside
          · rw [value]
            exact lastRange after fun other isOther otherInside =>
              absurd (past other isOther) (Nat.not_lt.mpr otherInside)

end AttributeMap

namespace AttributeCall

theorem assigned_push (history : History A) (startingValue : A) (start : ℕ) (value : A) (offset : ℕ) :
    ((pushAttributeChange start value).record history).assigned startingValue offset =
      if start ≤ offset then value else history.assigned startingValue offset := by
  by_cases after : start ≤ offset <;> simp [record, History.assigned, List.filter_append, after]

theorem assigned_truncate (history : History A) (startingValue : A) (newLen offset : ℕ) :
    ((truncate newLen : AttributeCall A).record history).assigned startingValue offset =
      history.assigned startingValue (min offset newLen) := by
  have same : (history.changes.filter fun change => change.1 ≤ newLen).filter (fun change => change.1 ≤ offset) =
      history.changes.filter fun change => change.1 ≤ min offset newLen := by
    rw [List.filter_filter]
    refine List.filter_congr ?_
    intro change _
    simp only [Nat.le_min, Bool.decide_and]
  simp only [record, History.assigned, same]

variable [DecidableEq A] {debugAssertions : Bool}

variable {history : History A} {map : AttributeMap A}

theorem apply_spec {startingValue : A} (represents : Represents startingValue history map) {call : AttributeCall A}
    (legal : call.Legal history map) (keeps : call.KeepsRanges map) :
    ∃ next, call.apply debugAssertions map = some next ∧ Represents startingValue (call.record history) next := by
  cases call with
  | grow newStop =>
    refine ⟨map, rfl, ?_, represents.values⟩
    exact fun range member => Nat.lt_of_lt_of_le (represents.below range member) legal
  | pushAttributeChange start value =>
    obtain ⟨atEnd, asserted⟩ := legal
    have below : ∀ range ∈ map.map.entries, range.1 < start :=
      fun range member => Nat.lt_of_lt_of_le (represents.below range member) atEnd
    obtain ⟨next, pushed, nextBelow, values⟩ :=
      AttributeMap.pushAttributeChange_spec asserted keeps below
    refine ⟨next, pushed, nextBelow, ?_⟩
    intro offset live
    rw [values, assigned_push, represents.values offset live]
  | truncate newLen =>
    obtain ⟨inside, -⟩ := legal
    refine ⟨map.truncate newLen, rfl, ?_, ?_⟩
    · intro range member
      have kept : (map.truncate newLen).map = (map.map.splitOff newLen).1 := by
        simp only [AttributeMap.truncate]
        cases (map.map.splitOff newLen).2.first <;> rfl
      rw [kept, OrderedMap.mem_splitOff_below] at member
      exact member.2
    · intro offset live
      have live : history.start ≤ offset := live
      rw [AttributeMap.truncate_value, assigned_truncate]
      exact represents.values _ (by omega)
  | truncateFront newStart =>
    obtain ⟨inside, -⟩ := legal
    refine ⟨map.truncateFront newStart, rfl, ?_, ?_⟩
    · intro range member
      have kept := (OrderedMap.mem_splitOff_above map.map newStart).mp member
      exact represents.below range kept.1
    · intro offset live
      have live : newStart ≤ offset := live
      rw [AttributeMap.truncateFront_value map live]
      exact represents.values offset (Nat.le_trans inside live)

/-- Every call of the run is legal and overwrites no other range, in the state before it. -/
def RunMeets (debugAssertions : Bool) : List (AttributeCall A) → History A → AttributeMap A → Prop
  | [], _, _ => True
  | call :: calls, history, map => call.Legal history map ∧ call.KeepsRanges map ∧
    ∀ next ∈ call.apply debugAssertions map, RunMeets debugAssertions calls (call.record history) next

theorem run_spec {startingValue : A} (calls : List (AttributeCall A))
    (represents : Represents startingValue history map) (meets : RunMeets debugAssertions calls history map) :
    ∃ final, calls.foldlM (apply debugAssertions) map = some final ∧
      Represents startingValue (calls.foldl record history) final := by
  induction calls generalizing history map with
  | nil => exact ⟨map, rfl, represents⟩
  | cons call calls ih =>
    obtain ⟨legal, keeps, rest⟩ := meets
    obtain ⟨next, applied, nextRepresents⟩ := apply_spec represents legal keeps
    obtain ⟨final, ran, finalRepresents⟩ := ih nextRepresents (rest next applied)
    exact ⟨final, by simp [applied, ran], finalRepresents⟩

/-- Over the live offsets an attribute map is the function that its surviving changes describe. -/
theorem run_iterates (startingValue : A) (calls : List (AttributeCall A))
    (meets : RunMeets debugAssertions calls ⟨0, 0, []⟩ (AttributeMap.new startingValue)) :
    ∃ map, calls.foldlM (apply debugAssertions) (AttributeMap.new startingValue) = some map ∧
      ∀ offset, (calls.foldl record ⟨0, 0, []⟩).start ≤ offset →
        offset ≤ usizeMax →
        (map.iterFrom offset).next.1 =
          (calls.foldl record ⟨0, 0, []⟩).assigned startingValue offset := by
  obtain ⟨map, ran, represents⟩ := run_spec calls (represents_new startingValue) meets
  refine ⟨map, ran, ?_⟩
  intro offset live bound
  have read := (Iter.reads_new map offset).nth 0 bound
  rw [Iter.next, read.1]
  exact represents.values offset live

instance (history : History A) (map : AttributeMap A) : (call : AttributeCall A) → Decidable (call.Legal history map)
  | .grow newStop => inferInstanceAs (Decidable (history.stop ≤ newStop))
  | .pushAttributeChange start _ => inferInstanceAs (Decidable (history.stop ≤ start ∧ map.PushAsserted start))
  | .truncate newLen => inferInstanceAs (Decidable (history.start ≤ newLen ∧ newLen ≤ history.stop))
  | .truncateFront newStart => inferInstanceAs (Decidable (history.start ≤ newStart ∧ newStart ≤ history.stop))

instance (map : AttributeMap A) : (call : AttributeCall A) → Decidable (call.KeepsRanges map)
  | .pushAttributeChange start value =>
    inferInstanceAs (Decidable (value = map.tailValue ∨ start = 0 ∨
      ∀ range ∈ map.map.entries, range.1 = start - 1 → range.2 = map.tailValue))
  | .grow _ | .truncate _ | .truncateFront _ => isTrue trivial

instance decidableRunMeets (debugAssertions : Bool) : (calls : List (AttributeCall A)) → (history : History A) →
    (map : AttributeMap A) → Decidable (RunMeets debugAssertions calls history map)
  | [], _, _ => isTrue trivial
  | call :: calls, history, map =>
    have := decidableRunMeets debugAssertions calls (call.record history)
    inferInstanceAs (Decidable (call.Legal history map ∧ call.KeepsRanges map ∧
      ∀ next ∈ call.apply debugAssertions map, RunMeets debugAssertions calls (call.record history) next))

theorem run_iterates_windowed :
    let calls : List (AttributeCall ℕ) :=
      [.pushAttributeChange 0 1, .grow 3, .pushAttributeChange 5 2, .grow 9, .truncate 7, .truncateFront 2]
    ∃ map, calls.foldlM (apply true) (AttributeMap.new 0) = some map ∧
      ∀ offset, 2 ≤ offset → offset ≤ usizeMax →
        (map.iterFrom offset).next.1 = (calls.foldl record ⟨0, 0, []⟩).assigned 0 offset :=
  run_iterates 0 _ (by decide +kernel)

/-- After a truncation to the start of a range, a change there overwrites the range before it. -/
theorem change_after_truncate :
    let calls : List (AttributeCall ℕ) :=
      [.pushAttributeChange 0 1, .pushAttributeChange 5 2, .truncate 5, .pushAttributeChange 5 3]
    (calls.foldlM (apply true) (AttributeMap.new 0)).map (fun map => (map.iterFrom 4).next.1) = some 2 ∧
      (calls.foldl record ⟨0, 0, []⟩).assigned 0 4 = 1 := by
  decide +kernel

end AttributeCall

end Warp.Grid
