import Warp.Proxy.Accumulator

namespace Warp.Proxy

open Json

abbrev Slots := OrderedMap ℕ String

/-- What an event says of a call: its output index, the id of its item, and whether the call is known of after it. -/
structure Mention where
  outputIndex : Option ℕ
  itemId : String
  telling : Bool

namespace Slots

def slot (slots : Slots) (outputIndex : Option ℕ) (itemId : String) : ℕ :=
  outputIndex.getD (((slots.entries.find? fun entry => entry.2 = itemId).map Prod.fst).getD
    ((slots.last.map fun entry => entry.1 + 1).getD 0))

/-- Every call is known of under a key that is the place of a call in the output. -/
def Lands (isCall : ℕ → Prop) : Slots → List Mention → Prop
  | _, [] => True
  | slots, mention :: mentions =>
    (mention.telling = true → isCall (slots.slot mention.outputIndex mention.itemId)) ∧
      Lands isCall (slots.insert (slots.slot mention.outputIndex mention.itemId) mention.itemId) mentions

theorem lands_cons {isCall : ℕ → Prop} {slots : Slots} {mention : Mention} {mentions : List Mention} :
    slots.Lands isCall (mention :: mentions) =
      ((mention.telling = true → isCall (slots.slot mention.outputIndex mention.itemId)) ∧
        Lands isCall (slots.insert (slots.slot mention.outputIndex mention.itemId) mention.itemId) mentions) := rfl

end Slots

structure FunctionCall where
  id : String
  callId : String
  name : String
  arguments : String
  named : callId ≠ ""

structure FunctionCall.Shown (call : FunctionCall) (arguments : String) (item : Json) : Prop where
  type : (item.get "type").bind asStr = some "function_call"
  id : (item.get "id").bind asStr = some call.id
  callId : (item.get "call_id") = some (.string call.callId)
  name : (item.get "name").bind asStr = some call.name
  arguments : (item.get "arguments").bind asStr = some arguments

def ShowsNoCall (item : Json) : Prop := (item.get "type").bind asStr ≠ some "function_call"

structure OutputItem where
  item : Json
  call : Option FunctionCall
  shown : ∀ shown, call = some shown → shown.Shown shown.arguments item
  other : call = none → ShowsNoCall item

structure Output where
  items : List OutputItem
  distinct : ((items.filterMap OutputItem.call).map FunctionCall.id).Nodup

def Output.callAt (output : Output) (index : ℕ) : Option FunctionCall := output.items[index]?.bind OutputItem.call

def Output.calls (output : Output) : List FunctionCall := output.items.filterMap OutputItem.call

inductive ItemEvent where
  | added (item : Json)
  | argumentsDelta (delta : String)
  | argumentsDone
  | done (item : Json)

/-- The event names the item, and shows no more than the item has. -/
def ItemEvent.Reports (call : Option FunctionCall) (outputIndex : Option ℕ) (event : Json) : ItemEvent → Prop
  | added item =>
    (event.get "type").bind asStr = some "response.output_item.added" ∧ event.get "item" = some item ∧
      responseOutputIndex event = outputIndex ∧ (call = none → ShowsNoCall item) ∧
      ∀ shown, call = some shown → ∃ arguments, shown.Shown arguments item
  | argumentsDelta delta => ∃ shown, call = some shown ∧
    (event.get "type").bind asStr = some "response.function_call_arguments.delta" ∧
      (event.get "delta").bind asStr = some delta ∧ responseOutputIndex event = outputIndex ∧
      (event.get "item_id").bind asStr = some shown.id ∧ delta.toList <:+: shown.arguments.toList
  | argumentsDone => ∃ shown, call = some shown ∧
    (event.get "type").bind asStr = some "response.function_call_arguments.done" ∧
      (event.get "arguments").bind asStr = some shown.arguments ∧ responseOutputIndex event = outputIndex ∧
      (event.get "item_id").bind asStr = some shown.id
  | done item =>
    (event.get "type").bind asStr = some "response.output_item.done" ∧ event.get "item" = some item ∧
      responseOutputIndex event = outputIndex ∧ (call = none → ShowsNoCall item) ∧
      ∀ shown, call = some shown → shown.Shown shown.arguments item

/-- An event of a stream for the output, where each item names its output index in all events or in none. -/
structure StreamEvent (output : Output) (indexed : ℕ → Bool) where
  position : ℕ
  item : OutputItem
  placed : output.items[position]? = some item
  kind : ItemEvent
  event : Json
  reports : kind.Reports item.call (if indexed position then some position else none) event

namespace ItemEvent

def mention (call : FunctionCall) (outputIndex : Option ℕ) : ItemEvent → Option Mention
  | added _ | done _ => some ⟨outputIndex, call.id, true⟩
  | argumentsDelta delta => if delta = "" then none else some ⟨outputIndex, call.id, true⟩
  | argumentsDone => some ⟨outputIndex, call.id, call.arguments ≠ ""⟩

theorem mention_argumentsDelta (call : FunctionCall) (outputIndex : Option ℕ) (delta : String) :
    (argumentsDelta delta).mention call outputIndex = if delta = "" then none else some ⟨outputIndex, call.id, true⟩ := rfl

theorem mention_shape {call : FunctionCall} {outputIndex : Option ℕ} {kind : ItemEvent} {mention : Mention}
    (mentions : kind.mention call outputIndex = some mention) :
    mention.outputIndex = outputIndex ∧ mention.itemId = call.id := by
  cases kind with
  | added item => cases mentions; exact ⟨rfl, rfl⟩
  | argumentsDelta delta =>
    rw [mention_argumentsDelta] at mentions
    by_cases nothing : delta = ""
    · rw [if_pos nothing] at mentions
      cases mentions
    · rw [if_neg nothing] at mentions
      cases mentions
      exact ⟨rfl, rfl⟩
  | argumentsDone => cases mentions; exact ⟨rfl, rfl⟩
  | done item => cases mentions; exact ⟨rfl, rfl⟩

def write (call : FunctionCall) : ItemEvent → ToolCallAccumulator → ToolCallAccumulator
  | added item | done item => ToolCallAccumulatorSet.writeItem item
  | argumentsDelta delta => fun entry => { entry with arguments := entry.arguments ++ delta }
  | argumentsDone => fun entry => { entry with arguments := call.arguments }

def apply (call : Option FunctionCall) (outputIndex : Option ℕ) (kind : ItemEvent) (set : ToolCallAccumulatorSet) :
    ToolCallAccumulatorSet :=
  match call with
  | none => set
  | some call =>
    match kind.mention call outputIndex with
    | none => set
    | some mention => set.responseCallMut mention.outputIndex (some mention.itemId) (kind.write call)

variable {call : Option FunctionCall} {outputIndex : Option ℕ} {event item : Json} {kind : ItemEvent}

theorem applyResponseOutputItem_eq (set : ToolCallAccumulatorSet)
    (other : call = none → ShowsNoCall item) (shown : ∀ shown, call = some shown → ∃ arguments, shown.Shown arguments item) :
    set.applyResponseOutputItem outputIndex item = (added item).apply call outputIndex set := by
  unfold ToolCallAccumulatorSet.applyResponseOutputItem
  cases call with
  | none => exact if_pos (other rfl)
  | some call =>
    obtain ⟨arguments, shown⟩ := shown call rfl
    rw [if_neg (not_not.mpr shown.type), shown.id]
    rfl

theorem applied (reports : kind.Reports call outputIndex event) (set : ToolCallAccumulatorSet) (flag : Bool) :
    applyResponsesEvent event set flag = .ok ([], kind.apply call outputIndex set) := by
  unfold applyResponsesEvent
  cases kind with
  | added item =>
    obtain ⟨type, shows, index, other, shown⟩ := reports
    rw [type, shows, index]
    exact congrArg (fun calls => Except.ok ([], calls)) (applyResponseOutputItem_eq set other shown)
  | argumentsDelta delta =>
    obtain ⟨shown, rfl, type, isDelta, index, id, -⟩ := reports
    rw [type, isDelta, index, id]
    apply congrArg (fun calls => Except.ok ([], calls))
    show ToolCallAccumulatorSet.applyResponseArgumentsDelta _ _ _ delta = _
    unfold ToolCallAccumulatorSet.applyResponseArgumentsDelta apply mention
    by_cases nothing : delta = ""
    · simp only [if_pos nothing]
    · simp only [if_neg nothing]
      rfl
  | argumentsDone =>
    obtain ⟨shown, rfl, type, arguments, index, id⟩ := reports
    rw [type, arguments, index, id]
    rfl
  | done item =>
    obtain ⟨type, shows, index, other, shown⟩ := reports
    rw [type, shows, index]
    exact congrArg (fun calls => Except.ok ([], calls))
      (applyResponseOutputItem_eq set other fun call isCall => ⟨_, shown call isCall⟩)

end ItemEvent

section Keys

variable {set : ToolCallAccumulatorSet} {slots : Slots} {outputIndex : Option ℕ} {itemId : String}

def ToolCallAccumulatorSet.HasSlots (set : ToolCallAccumulatorSet) (slots : Slots) : Prop :=
  set.calls.entries.map (fun entry => (entry.1, entry.2.responseItemId)) =
    slots.entries.map fun entry => (entry.1, some entry.2)

namespace ToolCallAccumulatorSet

def named (itemId : String) (entry : ToolCallAccumulator) : ToolCallAccumulator :=
  { entry with responseItemId := some itemId }

theorem findItem_eq (hasSlots : set.HasSlots slots) :
    set.findItem itemId = (slots.entries.find? fun entry => entry.2 = itemId).map Prod.fst := by
  have found := congrArg (fun entries => (entries.find? fun entry => entry.2 = some itemId).map Prod.fst) hasSlots
  rw [List.find?_map, List.find?_map, Option.map_map, Option.map_map] at found
  have same : ((fun entry : ℕ × Option String => decide (entry.2 = some itemId)) ∘ fun entry : ℕ × String =>
      (entry.1, some entry.2)) = fun entry => decide (entry.2 = itemId) := by
    funext entry
    exact decide_eq_decide.mpr Option.some_inj
  rw [same] at found
  exact found

theorem nextIndex_eq (hasSlots : set.HasSlots slots) :
    set.nextIndex = (slots.last.map fun entry => entry.1 + 1).getD 0 := by
  have last := congrArg (fun entries => entries.getLast?.map fun entry => entry.1 + 1) hasSlots
  rw [List.getLast?_map, List.getLast?_map, Option.map_map, Option.map_map] at last
  exact congrArg (fun index => index.getD 0) last

theorem entry_of_findItem {index : ℕ} (found : set.findItem itemId = some index) :
    (set.entry index).responseItemId = some itemId := by
  obtain ⟨⟨key, call⟩, isFound, rfl⟩ := Option.map_eq_some_iff.mp found
  have member := List.mem_of_find?_eq_some isFound
  have owner : call.responseItemId = some itemId := by simpa using List.find?_some isFound
  unfold entry
  rw [OrderedMap.get_eq_some member]
  exact owner

theorem responseCallMut_eq (hasSlots : set.HasSlots slots) (write : ToolCallAccumulator → ToolCallAccumulator) :
    set.responseCallMut outputIndex (some itemId) write =
      set.modify (slots.slot outputIndex itemId) (write ∘ named itemId) := by
  unfold responseCallMut Slots.slot
  rw [← findItem_eq hasSlots, ← nextIndex_eq hasSlots]
  cases outputIndex with
  | some index => rfl
  | none =>
    rw [Option.bind_some]
    cases found : set.findItem itemId with
    | none => rfl
    | some index =>
      have owner := entry_of_findItem found
      have same : named itemId (set.entry index) = set.entry index := by
        unfold named
        rw [← owner]
      show set.modify index write = set.modify index (write ∘ named itemId)
      unfold modify
      rw [Function.comp_apply, same]

theorem HasSlots.modify (hasSlots : set.HasSlots slots) {index : ℕ} {write : ToolCallAccumulator → ToolCallAccumulator}
    (keeps : ∀ entry, entry.responseItemId = some itemId → (write entry).responseItemId = some itemId) :
    (set.modify index (write ∘ named itemId)).HasSlots (slots.insert index itemId) := by
  unfold HasSlots at hasSlots ⊢
  show (OrderedMap.insertEntry index _ set.calls.entries).map _ = (OrderedMap.insertEntry index itemId slots.entries).map _
  rw [OrderedMap.insertEntry_map, OrderedMap.insertEntry_map, hasSlots, Function.comp_apply, keeps _ rfl]

end ToolCallAccumulatorSet

theorem ItemEvent.write_keeps {call : FunctionCall} {index : Option ℕ} {event : Json} {kind : ItemEvent}
    (reports : kind.Reports (some call) index event) {entry : ToolCallAccumulator}
    (named : entry.responseItemId = some call.id) : (kind.write call entry).responseItemId = some call.id := by
  cases kind with
  | added item =>
    obtain ⟨-, -, -, -, shown⟩ := reports
    obtain ⟨arguments, shown⟩ := shown call rfl
    show ((item.get "id").bind asStr <|> entry.responseItemId) = some call.id
    rw [shown.id]
    rfl
  | argumentsDelta delta => exact named
  | argumentsDone => exact named
  | done item =>
    obtain ⟨-, -, -, -, shown⟩ := reports
    show ((item.get "id").bind asStr <|> entry.responseItemId) = some call.id
    rw [(shown call rfl).id]
    rfl

end Keys

section Strays

variable {output : Output} {set : ToolCallAccumulatorSet} {slots : Slots}

/-- A call that is known of under a key that is no call's place in the output. -/
def ToolCallAccumulatorSet.HasStray (output : Output) (set : ToolCallAccumulatorSet) : Prop :=
  ∃ index entry, (index, entry) ∈ set.calls.entries ∧ output.callAt index = none ∧ entry.known = true

/-- A call under such a key is known of for good. -/
def ToolCallAccumulatorSet.StraysLast (output : Output) (set : ToolCallAccumulatorSet) : Prop :=
  ∀ index entry, (index, entry) ∈ set.calls.entries → output.callAt index = none →
    ∃ call ∈ output.calls, entry.responseItemId = some call.id ∧
      (entry.known = true → entry.name.isSome = true ∨ call.arguments ≠ "")

theorem Output.eq_of_id (output : Output) {left right : FunctionCall} (isLeft : left ∈ output.calls)
    (isRight : right ∈ output.calls) (same : left.id = right.id) : left = right :=
  List.inj_on_of_nodup_map output.distinct isLeft isRight same

variable {call : FunctionCall} {entry : ToolCallAccumulator}

theorem ItemEvent.known_write {index : Option ℕ} {event : Json} {kind : ItemEvent} {mention : Mention}
    (reports : kind.Reports (some call) index event) (mentions : kind.mention call index = some mention)
    (lasts : entry.known = true → entry.name.isSome = true ∨ call.arguments ≠ "") :
    ((kind.write call entry).known = true ↔ entry.known = true ∨ mention.telling = true) ∧
      ((kind.write call entry).known = true → (kind.write call entry).name.isSome = true ∨ call.arguments ≠ "") := by
  have byName : ∀ arguments item, call.Shown arguments item →
      (ToolCallAccumulatorSet.writeItem item entry).name.isSome = true := by
    intro arguments item shown
    show ((item.get "name").bind asStr <|> entry.name).isSome = true
    rw [shown.name]
    rfl
  have known : ∀ item, (ToolCallAccumulatorSet.writeItem item entry).name.isSome = true →
      (ToolCallAccumulatorSet.writeItem item entry).known = true := by
    intro item named
    unfold ToolCallAccumulator.known
    rw [named, Bool.true_or]
  cases kind with
  | added item =>
    obtain ⟨-, -, -, -, shown⟩ := reports
    obtain ⟨arguments, shown⟩ := shown call rfl
    cases mentions
    have named := byName arguments item shown
    exact ⟨iff_of_true (known item named) (.inr rfl), fun _ => .inl named⟩
  | done item =>
    obtain ⟨-, -, -, -, shown⟩ := reports
    cases mentions
    have named := byName call.arguments item (shown call rfl)
    exact ⟨iff_of_true (known item named) (.inr rfl), fun _ => .inl named⟩
  | argumentsDelta delta =>
    obtain ⟨shown, isCall, -, -, -, -, piece⟩ := reports
    cases isCall
    rw [mention_argumentsDelta] at mentions
    by_cases nothing : delta = ""
    · rw [if_pos nothing] at mentions
      cases mentions
    · rw [if_neg nothing] at mentions
      cases mentions
      have letters : delta.toList ≠ [] := fun empty => nothing (String.toList_inj.mp empty)
      have more : entry.arguments ++ delta ≠ "" := by
        intro empty
        have parts := congrArg String.toList empty
        rw [String.toList_append] at parts
        exact letters (List.append_eq_nil_iff.mp parts).2
      have whole : call.arguments ≠ "" := by
        intro empty
        rw [empty] at piece
        exact letters (List.infix_nil.mp piece)
      refine ⟨iff_of_true ?_ (.inr rfl), fun _ => .inr whole⟩
      show (entry.name.isSome || decide (entry.arguments ++ delta ≠ "")) = true
      rw [decide_eq_true more, Bool.or_true]
  | argumentsDone =>
    cases mentions
    have after : (write call argumentsDone entry).known = true ↔ entry.name.isSome = true ∨ call.arguments ≠ "" := by
      show (entry.name.isSome || decide (call.arguments ≠ "")) = true ↔ _
      rw [Bool.or_eq_true, decide_eq_true_eq]
    rw [after, decide_eq_true_eq]
    refine ⟨?_, id⟩
    constructor
    · rintro (named | arguments)
      · left
        unfold ToolCallAccumulator.known
        rw [named, Bool.true_or]
      · exact .inr arguments
    · rintro (isKnown | arguments)
      · exact lasts isKnown
      · exact .inr arguments

theorem ToolCallAccumulatorSet.entry_slot {itemId : String} (hasSlots : set.HasSlots slots)
    (member : (slots.slot none itemId, entry) ∈ set.calls.entries) : entry.responseItemId = some itemId := by
  unfold Slots.slot at member
  rw [← findItem_eq hasSlots, ← nextIndex_eq hasSlots, Option.getD_none] at member
  cases found : set.findItem itemId with
  | some index =>
    rw [found, Option.getD_some] at member
    have owner := entry_of_findItem found
    unfold ToolCallAccumulatorSet.entry at owner
    rw [OrderedMap.get_eq_some member] at owner
    exact owner
  | none =>
    rw [found, Option.getD_none] at member
    exfalso
    unfold nextIndex OrderedMap.last at member
    obtain ⟨before, last, parts⟩ := List.eq_nil_or_concat' set.calls.entries |>.resolve_left (List.ne_nil_of_mem member)
    rw [parts, List.getLast?_concat, Option.map_some, Option.getD_some, List.mem_append, List.mem_singleton] at member
    have sorted := set.calls.sorted
    rw [parts] at sorted
    rcases member with member | member
    · have below := (List.pairwise_append.mp sorted).2.2 _ member last (List.mem_singleton_self last)
      dsimp only at below
      omega
    · have same := congrArg Prod.fst member
      dsimp only at same
      omega

theorem Output.callAt_mem (output : Output) {index : ℕ} (isCall : output.callAt index = some call) :
    call ∈ output.calls := by
  obtain ⟨item, placed, isCall⟩ := Option.bind_eq_some_iff.mp isCall
  exact List.mem_filterMap.mpr ⟨item, List.mem_of_getElem? placed, isCall⟩

theorem ToolCallAccumulatorSet.modify_strays {outputIndex : Option ℕ} {event : Json} {kind : ItemEvent}
    {mention : Mention} (reports : kind.Reports (some call) outputIndex event)
    (mentions : kind.mention call outputIndex = some mention) (isCall : call ∈ output.calls)
    (indexed : ∀ index, outputIndex = some index → output.callAt index = some call) (hasSlots : set.HasSlots slots)
    (last : set.StraysLast output) (index : ℕ) (slot : slots.slot outputIndex call.id = index) :
    (set.modify index (kind.write call ∘ named call.id)).StraysLast output ∧
      ((set.modify index (kind.write call ∘ named call.id)).HasStray output ↔
        set.HasStray output ∨ (mention.telling = true ∧ output.callAt index = none)) := by
  have members : ∀ entry, entry ∈ (set.modify index (kind.write call ∘ named call.id)).calls.entries ↔
      entry = (index, kind.write call (named call.id (set.entry index))) ∨ entry ∈ set.calls.entries ∧ entry.1 ≠ index :=
    fun entry => OrderedMap.mem_insert _ _
  by_cases place : output.callAt index = none
  · have unindexed : outputIndex = none := by
      cases outputIndex with
      | none => rfl
      | some other =>
        have atCall := indexed other rfl
        have same : other = index := slot
        rw [same, place] at atCall
        cases atCall
    subst unindexed
    have lasts : (named call.id (set.entry index)).known = true →
        (named call.id (set.entry index)).name.isSome = true ∨ call.arguments ≠ "" := by
      cases found : set.calls.get index with
      | none =>
        unfold entry
        rw [found]
        exact nofun
      | some entry =>
        have member := OrderedMap.get_eq_some_iff.mp found
        obtain ⟨other, isOther, owner, lasts⟩ := last index entry member place
        have own := entry_slot hasSlots (slot.symm ▸ member)
        have same := output.eq_of_id isCall isOther (Option.some.inj (own.symm.trans owner))
        unfold ToolCallAccumulatorSet.entry
        rw [found, same]
        exact lasts
    have known : (named call.id (set.entry index)).known = true ↔ ∃ entry, (index, entry) ∈ set.calls.entries ∧
        entry.known = true := by
      cases found : set.calls.get index with
      | none =>
        unfold entry
        rw [found]
        constructor
        · exact nofun
        · rintro ⟨entry, member, -⟩
          rw [OrderedMap.get_eq_some member] at found
          cases found
      | some entry =>
        unfold ToolCallAccumulatorSet.entry
        rw [found]
        constructor
        · exact fun isKnown => ⟨entry, OrderedMap.get_eq_some_iff.mp found, isKnown⟩
        · rintro ⟨other, member, isKnown⟩
          rw [OrderedMap.get_eq_some member] at found
          cases found
          exact isKnown
    obtain ⟨after, lastsAfter⟩ := ItemEvent.known_write reports mentions lasts
    constructor
    · intro other entry member stray
      rcases (members _).mp member with same | ⟨member, -⟩
      · cases same
        exact ⟨call, isCall, ItemEvent.write_keeps reports rfl, lastsAfter⟩
      · exact last other entry member stray
    · constructor
      · rintro ⟨other, entry, member, stray, isKnown⟩
        rcases (members _).mp member with same | ⟨member, -⟩
        · cases same
          rcases after.mp isKnown with before | telling
          · obtain ⟨entry, member, isKnown⟩ := known.mp before
            exact .inl ⟨_, entry, member, place, isKnown⟩
          · exact .inr ⟨telling, place⟩
        · exact .inl ⟨other, entry, member, stray, isKnown⟩
      · rintro (⟨other, entry, member, stray, isKnown⟩ | ⟨telling, -⟩)
        · by_cases same : other = index
          · subst same
            refine ⟨_, _, (members _).mpr (.inl rfl), place, ?_⟩
            exact after.mpr (.inl (known.mpr ⟨entry, member, isKnown⟩))
          · exact ⟨other, entry, (members _).mpr (.inr ⟨member, same⟩), stray, isKnown⟩
        · exact ⟨_, _, (members _).mpr (.inl rfl), place, after.mpr (.inr telling)⟩
  · constructor
    · intro other entry member stray
      rcases (members _).mp member with same | ⟨member, -⟩
      · cases same
        exact absurd stray place
      · exact last other entry member stray
    · constructor
      · rintro ⟨other, entry, member, stray, isKnown⟩
        rcases (members _).mp member with same | ⟨member, -⟩
        · cases same
          exact absurd stray place
        · exact .inl ⟨other, entry, member, stray, isKnown⟩
      · rintro (⟨other, entry, member, stray, isKnown⟩ | ⟨-, stray⟩)
        · refine ⟨other, entry, (members _).mpr (.inr ⟨member, ?_⟩), stray, isKnown⟩
          intro same
          dsimp only at same
          exact place (same ▸ stray)
        · exact absurd stray place

end Strays

section Stream

variable {output : Output} {indexed : ℕ → Bool}

namespace StreamEvent

def outputIndex (self : StreamEvent output indexed) : Option ℕ := if indexed self.position then some self.position else none

def mention (self : StreamEvent output indexed) : Option Mention :=
  self.item.call.bind fun call => self.kind.mention call self.outputIndex

theorem mention_index (self : StreamEvent output indexed) {call : FunctionCall} (isCall : self.item.call = some call)
    {index : ℕ} (named : self.outputIndex = some index) : output.callAt index = some call := by
  unfold outputIndex at named
  by_cases isIndexed : indexed self.position = true
  · rw [if_pos isIndexed] at named
    cases named
    unfold Output.callAt
    rw [self.placed]
    exact isCall
  · rw [if_neg isIndexed] at named
    cases named

def run (stream : List (StreamEvent output indexed)) (set : ToolCallAccumulatorSet) : ToolCallAccumulatorSet :=
  stream.foldl (fun set event => event.kind.apply event.item.call event.outputIndex set) set

theorem run_strays (stream : List (StreamEvent output indexed)) {set : ToolCallAccumulatorSet} {slots : Slots}
    (hasSlots : set.HasSlots slots) (last : set.StraysLast output) :
    (run stream set).HasStray output ↔ set.HasStray output ∨
      ¬ slots.Lands (fun index => (output.callAt index).isSome = true) (stream.filterMap mention) := by
  induction stream generalizing set slots with
  | nil =>
    show set.HasStray output ↔ set.HasStray output ∨ ¬ True
    rw [not_true, or_false]
  | cons event stream ih =>
    show (run stream (event.kind.apply event.item.call event.outputIndex set)).HasStray output ↔ _
    have silent : event.mention = none → event.kind.apply event.item.call event.outputIndex set = set := by
      unfold mention ItemEvent.apply
      cases event.item.call with
      | none => exact fun _ => rfl
      | some call =>
        intro nothing
        rw [Option.bind_some] at nothing
        dsimp only
        rw [nothing]
    cases mentions : event.mention with
    | none => rw [silent mentions, ih hasSlots last, List.filterMap_cons_none mentions]
    | some mention =>
      obtain ⟨call, isCall, ofCall⟩ := Option.bind_eq_some_iff.mp mentions
      have reports := event.reports
      rw [isCall] at reports
      obtain ⟨index, item⟩ := ItemEvent.mention_shape ofCall
      have placed : output.callAt event.position = some call := by
        unfold Output.callAt
        rw [event.placed]
        exact isCall
      have applied : event.kind.apply event.item.call event.outputIndex set =
          set.modify (slots.slot mention.outputIndex mention.itemId)
            (event.kind.write call ∘ ToolCallAccumulatorSet.named call.id) := by
        unfold ItemEvent.apply
        rw [isCall]
        dsimp only
        rw [ofCall]
        dsimp only
        rw [ToolCallAccumulatorSet.responseCallMut_eq hasSlots, item]
      have slot : slots.slot event.outputIndex call.id = slots.slot mention.outputIndex mention.itemId := by
        rw [index, item]
      obtain ⟨lastAfter, strays⟩ := ToolCallAccumulatorSet.modify_strays reports ofCall (output.callAt_mem placed)
        (fun _ named => event.mention_index isCall named) hasSlots last _ slot
      have slotsAfter : (set.modify (slots.slot mention.outputIndex mention.itemId)
          (event.kind.write call ∘ ToolCallAccumulatorSet.named call.id)).HasSlots
          (slots.insert (slots.slot mention.outputIndex mention.itemId) mention.itemId) := by
        rw [item]
        exact hasSlots.modify fun entry named => ItemEvent.write_keeps reports named
      rw [applied, List.filterMap_cons_some mentions]
      rw [ih slotsAfter lastAfter, strays]
      rw [Slots.lands_cons, or_assoc, not_and_or, Classical.not_imp, Bool.not_eq_true, Option.isSome_eq_false_iff, Option.isNone_iff_eq_none]

end StreamEvent

end Stream

section Completed

variable {output : Output}

def ToolCallAccumulator.request (call : ToolCallAccumulator) : Option String × Option String × String :=
  (call.id, call.name, call.arguments)

def FunctionCall.request (call : FunctionCall) : Option String × Option String × String :=
  (some call.callId, some call.name, call.arguments)

def OutputItem.requestAt (item : OutputItem × ℕ) : Option (ℕ × Option String × Option String × String) :=
  item.1.call.map fun call => (item.2, call.request)

namespace ToolCallAccumulatorSet

def applyItems (items : List OutputItem) (index : ℕ) (set : ToolCallAccumulatorSet) : ToolCallAccumulatorSet :=
  ((items.map OutputItem.item).zipIdx index).foldl
    (fun set (item, index) => set.applyResponseOutputItem (some index) item) set

theorem applyItem_get {item : OutputItem} {index other : ℕ} (set : ToolCallAccumulatorSet) :
    (∃ call entry, item.call = some call ∧ entry.request = call.request ∧
        (set.applyResponseOutputItem (some index) item.item).calls.get other =
          if other = index then some entry else set.calls.get other) ∨
      (item.call = none ∧ set.applyResponseOutputItem (some index) item.item = set) := by
  obtain ⟨item, call, shown, noCall⟩ := item
  unfold applyResponseOutputItem
  cases call with
  | none => exact .inr ⟨rfl, if_pos (noCall rfl)⟩
  | some call =>
    left
    have shown := shown call rfl
    rw [if_neg (not_not.mpr shown.type), shown.id]
    refine ⟨call, writeItem item (named call.id (set.entry index)), rfl, ?_, ?_⟩
    · unfold ToolCallAccumulator.request FunctionCall.request writeItem
      dsimp only
      rw [shown.callId, shown.name, shown.arguments]
      show ((some call.callId).filter (fun id => id ≠ "") <|> _, _, _) = _
      rw [Option.filter_some, if_pos (decide_eq_true call.named)]
      rfl
    · exact OrderedMap.get_insert

theorem applyItems_get (items : List OutputItem) (index : ℕ) (set : ToolCallAccumulatorSet) (other : ℕ) :
    (∀ call, index ≤ other → items[other - index]?.bind OutputItem.call = some call →
      ∃ entry, (applyItems items index set).calls.get other = some entry ∧ entry.request = call.request) ∧
    ((other < index ∨ items[other - index]?.bind OutputItem.call = none) →
      (applyItems items index set).calls.get other = set.calls.get other) := by
  induction items generalizing index set with
  | nil => exact ⟨nofun, fun _ => rfl⟩
  | cons item items ih =>
    have unfolded : applyItems (item :: items) index set =
        applyItems items (index + 1) (set.applyResponseOutputItem (some index) item.item) := rfl
    obtain ⟨later, kept⟩ := ih (index + 1) (set.applyResponseOutputItem (some index) item.item)
    rw [unfolded]
    rcases Nat.lt_trichotomy other index with before | here | after
    · refine ⟨fun call le => absurd le (Nat.not_le_of_lt before), fun _ => ?_⟩
      rw [kept (.inl (Nat.lt_succ_of_lt before))]
      rcases @applyItem_get item index other set with ⟨call, entry, -, -, get⟩ | ⟨-, same⟩
      · rw [get, if_neg (Nat.ne_of_lt before)]
      · rw [same]
    · subst here
      have first : (item :: items)[other - other]?.bind OutputItem.call = item.call := by
        rw [Nat.sub_self]
        rfl
      rw [first, kept (.inl (Nat.lt_succ_self other))]
      rcases @applyItem_get item other other set with ⟨call, entry, isCall, request, get⟩ | ⟨isNone, same⟩
      · rw [isCall, get, if_pos rfl]
        constructor
        · intro given _ same
          cases same
          exact ⟨entry, rfl, request⟩
        · rintro (below | nothing)
          · exact absurd below (Nat.lt_irrefl _)
          · cases nothing
      · rw [isNone, same]
        exact ⟨nofun, fun _ => rfl⟩
    · have shift : (item :: items)[other - index]? = items[other - (index + 1)]? := by
        rw [show other - index = other - (index + 1) + 1 by omega]
        rfl
      rw [shift]
      refine ⟨fun call _ isCall => later call after isCall, fun none => ?_⟩
      have isNone := none.resolve_left (Nat.not_lt_of_lt after)
      rw [kept (.inr isNone)]
      rcases @applyItem_get item index other set with ⟨call, entry, -, -, get⟩ | ⟨-, same⟩
      · rw [get, if_neg (Nat.ne_of_gt after)]
      · rw [same]

variable {set : ToolCallAccumulatorSet}

theorem mem_calls_iff {index : ℕ} {request : Option String × Option String × String} :
    (index, request) ∈ output.items.zipIdx.filterMap OutputItem.requestAt ↔
      ∃ call, output.callAt index = some call ∧ request = call.request := by
  rw [List.mem_filterMap]
  constructor
  · rintro ⟨⟨item, place⟩, member, isCall⟩
    obtain ⟨call, given, same⟩ := Option.map_eq_some_iff.mp isCall
    cases same
    have placed := List.mem_zipIdx_iff_getElem?.mp member
    refine ⟨call, ?_, rfl⟩
    unfold Output.callAt
    rw [placed]
    exact given
  · rintro ⟨call, isCall, rfl⟩
    obtain ⟨item, placed, isCall⟩ := Option.bind_eq_some_iff.mp isCall
    refine ⟨(item, index), List.mem_zipIdx_iff_getElem?.mpr placed, ?_⟩
    unfold OutputItem.requestAt
    rw [isCall]
    rfl

theorem calls_eq (items : List OutputItem) (index : ℕ) :
    ((items.zipIdx index).filterMap OutputItem.requestAt).map Prod.snd =
      (items.filterMap OutputItem.call).map FunctionCall.request := by
  induction items generalizing index with
  | nil => rfl
  | cons item items ih =>
    have first : OutputItem.requestAt (item, index) = item.call.map fun call => (index, call.request) := rfl
    rw [List.zipIdx_cons]
    cases isCall : item.call with
    | none =>
      rw [isCall] at first
      rw [List.filterMap_cons_none isCall, List.filterMap_cons_none first, ih]
    | some call =>
      rw [isCall] at first
      rw [List.filterMap_cons_some isCall, List.filterMap_cons_some first, List.map_cons, List.map_cons, ih]

theorem yielded_iff (placed : ∀ index call, output.callAt index = some call →
      ∃ entry, set.calls.get index = some entry ∧ entry.request = call.request) :
    set.yielded.map ToolCallAccumulator.request = output.calls.map FunctionCall.request ↔ ¬ set.HasStray output := by
  obtain ⟨requests, isRequests⟩ : ∃ requests, requests = (set.calls.entries.filter fun entry =>
    entry.2.known).map fun entry => (entry.1, entry.2.request) := ⟨_, rfl⟩
  have yields : set.yielded.map ToolCallAccumulator.request = requests.map Prod.snd := by
    unfold yielded
    rw [isRequests, List.filter_map, List.map_map, List.map_map]
    rfl
  have members : ∀ index request, (index, request) ∈ requests ↔ ∃ entry, (index, entry) ∈ set.calls.entries ∧
      entry.known = true ∧ request = entry.request := by
    intro index request
    rw [isRequests, List.mem_map]
    constructor
    · rintro ⟨⟨other, entry⟩, member, same⟩
      cases same
      obtain ⟨member, known⟩ := List.mem_filter.mp member
      exact ⟨entry, member, known, rfl⟩
    · rintro ⟨entry, member, known, rfl⟩
      exact ⟨(index, entry), List.mem_filter.mpr ⟨member, known⟩, rfl⟩
  have sorted : requests.Pairwise fun a b => a.1 < b.1 := by
    rw [isRequests]
    exact (set.calls.sorted.filter _).map _ fun _ _ below => below
  have callsSorted : (output.items.zipIdx.filterMap OutputItem.requestAt).Pairwise fun a b => a.1 < b.1 := by
    have places : output.items.zipIdx.Pairwise fun a b => a.2 < b.2 := by
      apply List.pairwise_map.mp
      rw [List.zipIdx_map_snd]
      exact List.pairwise_lt_range'
    apply places.filterMap
    intro a b below left isLeft right isRight
    obtain ⟨-, -, rfl⟩ := Option.map_eq_some_iff.mp isLeft
    obtain ⟨-, -, rfl⟩ := Option.map_eq_some_iff.mp isRight
    exact below
  have atCalls : requests.filter (fun request => (output.callAt request.1).isSome) =
      output.items.zipIdx.filterMap OutputItem.requestAt := by
    apply OrderedMap.ext_of_mem (sorted.filter _) callsSorted
    rintro ⟨index, request⟩
    rw [mem_calls_iff, List.mem_filter, members]
    constructor
    · rintro ⟨⟨entry, member, -, rfl⟩, isCall⟩
      obtain ⟨call, isCall⟩ := Option.isSome_iff_exists.mp isCall
      obtain ⟨other, found, same⟩ := placed index call isCall
      rw [OrderedMap.get_eq_some member] at found
      cases found
      exact ⟨call, isCall, same⟩
    · rintro ⟨call, isCall, rfl⟩
      obtain ⟨entry, found, same⟩ := placed index call isCall
      refine ⟨⟨entry, OrderedMap.get_eq_some_iff.mp found, ?_, same.symm⟩, by rw [isCall]; rfl⟩
      have named : entry.name = some call.name := congrArg (fun request => request.2.1) same
      unfold ToolCallAccumulator.known
      rw [named]
      rfl
  rw [yields, show output.calls.map FunctionCall.request = _ from (calls_eq output.items 0).symm, ← atCalls]
  constructor
  · rintro same ⟨index, entry, member, stray, known⟩
    have lengths := congrArg List.length same
    rw [List.length_map, List.length_map, eq_comm, List.length_filter_eq_length_iff] at lengths
    have isCall := lengths _ ((members index entry.request).mpr ⟨entry, member, known, rfl⟩)
    dsimp only at isCall
    rw [stray] at isCall
    cases isCall
  · intro noStray
    rw [List.filter_eq_self.mpr]
    rintro ⟨index, request⟩ member
    obtain ⟨entry, member, known, -⟩ := (members index request).mp member
    rw [Option.isSome_iff_ne_none]
    exact fun stray => noStray ⟨index, entry, member, stray, known⟩

end ToolCallAccumulatorSet

end Completed

section Assembly

variable {output : Output} {indexed : ℕ → Bool}

/-- The calls after some events, each with whether the text of a completed response counts. -/
def ToolCallAccumulatorSet.applyEvents (events : List (Json × Bool)) (set : ToolCallAccumulatorSet) :
    Except String ToolCallAccumulatorSet :=
  events.foldlM (fun set event => (applyResponsesEvent event.1 set event.2).map Prod.snd) set

structure Output.Completed (output : Output) (event : Json) : Prop where
  type : (event.get "type").bind asStr = some "response.completed"
  response : ((event.get "response").bind (get "output")).bind asArray = some (output.items.map OutputItem.item)

theorem StreamEvent.applyEvents_eq (stream : List (StreamEvent output indexed × Bool)) (set : ToolCallAccumulatorSet) :
    set.applyEvents (stream.map fun event => (event.1.event, event.2)) = .ok (run (stream.map Prod.fst) set) := by
  induction stream generalizing set with
  | nil => rfl
  | cons event stream ih =>
    unfold ToolCallAccumulatorSet.applyEvents at ih ⊢
    rw [List.map_cons, List.foldlM_cons, ItemEvent.applied event.1.reports]
    exact ih _

theorem Output.Completed.applied {event : Json} (completed : output.Completed event) (set : ToolCallAccumulatorSet)
    (flag : Bool) : (applyResponsesEvent event set flag).map Prod.snd =
      .ok (ToolCallAccumulatorSet.applyItems output.items 0 set) := by
  obtain ⟨array, isArray, items⟩ := Option.bind_eq_some_iff.mp completed.response
  obtain ⟨response, isResponse, isOutput⟩ := Option.bind_eq_some_iff.mp isArray
  have read : set.applyResponsesOutput response = ToolCallAccumulatorSet.applyItems output.items 0 set := by
    unfold ToolCallAccumulatorSet.applyResponsesOutput
    rw [isOutput, Option.bind_some, items]
    rfl
  unfold applyResponsesEvent
  rw [completed.type, isResponse]
  show Except.ok (set.applyResponsesOutput response) = _
  rw [read]

/-- The calls of a response are assembled just if every event of its stream lands on a call's place in the output. -/
theorem ToolCallAccumulatorSet.assembles_iff (output : Output) (indexed : ℕ → Bool)
    (stream : List (StreamEvent output indexed × Bool)) (completed : Json) (flag : Bool)
    (completes : output.Completed completed) :
    ∃ set, empty.applyEvents (stream.map (fun event => (event.1.event, event.2)) ++ [(completed, flag)]) = .ok set ∧
      (set.yielded.map ToolCallAccumulator.request = output.calls.map FunctionCall.request ↔
        Slots.Lands (fun index => (output.callAt index).isSome = true) .empty
          (stream.filterMap fun event => event.1.mention)) := by
  obtain ⟨streamed, isStreamed⟩ : ∃ streamed, streamed = StreamEvent.run (stream.map Prod.fst) empty := ⟨_, rfl⟩
  have get := applyItems_get output.items 0 streamed
  refine ⟨applyItems output.items 0 streamed, ?_, ?_⟩
  · unfold applyEvents
    have ran := StreamEvent.applyEvents_eq stream empty
    unfold applyEvents at ran
    rw [List.foldlM_append, ran, ← isStreamed]
    show ((applyResponsesEvent completed streamed flag).map Prod.snd).bind Except.ok = _
    rw [completes.applied]
    rfl
  · have strays : (applyItems output.items 0 streamed).HasStray output ↔ streamed.HasStray output := by
      unfold HasStray
      apply exists_congr
      intro index
      apply exists_congr
      intro entry
      have same : output.callAt index = none → ((index, entry) ∈ (applyItems output.items 0 streamed).calls.entries ↔
          (index, entry) ∈ streamed.calls.entries) := by
        intro stray
        rw [← OrderedMap.get_eq_some_iff, ← OrderedMap.get_eq_some_iff, (get index).2 (.inr stray)]
      constructor
      · rintro ⟨member, stray, known⟩
        exact ⟨(same stray).mp member, stray, known⟩
      · rintro ⟨member, stray, known⟩
        exact ⟨(same stray).mpr member, stray, known⟩
    have fresh : ¬ empty.HasStray output := fun ⟨_, _, member, _⟩ => List.not_mem_nil member
    have ran := @StreamEvent.run_strays output indexed (stream.map Prod.fst) empty .empty rfl
      fun _ _ member => absurd member List.not_mem_nil
    rw [← isStreamed, List.filterMap_map] at ran
    rw [yielded_iff fun index call isCall => (get index).1 call (Nat.zero_le _) isCall, strays, ran, not_or, not_not]
    exact ⟨fun landed => landed.2, fun landed => ⟨fresh, landed⟩⟩

end Assembly

section Landing

variable {isCall : ℕ → Prop}

variable {output : Output} {indexed : ℕ → Bool}

end Landing

def FunctionCall.sample : FunctionCall := ⟨"fc_1", "call_1", "run_shell_command", "\x7b\"command\":\"pwd\"\x7d", by decide⟩

def FunctionCall.sampleItem (arguments : String) : Json :=
  object [("type", .string "function_call"), ("id", .string "fc_1"), ("call_id", .string "call_1"),
    ("name", .string "run_shell_command"), ("arguments", .string arguments)]

def Output.sample : Output where
  items := [
    ⟨object [("type", .string "reasoning"), ("id", .string "rs_1")], none, nofun, fun _ => by
      unfold ShowsNoCall
      decide⟩,
    ⟨FunctionCall.sampleItem FunctionCall.sample.arguments, some .sample, by
      intro shown isCall
      cases isCall
      exact ⟨rfl, rfl, rfl, rfl, rfl⟩, nofun⟩]
  distinct := by decide

def StreamEvent.sample : StreamEvent .sample fun _ => false where
  position := 1
  item := Output.sample.items[1]
  placed := rfl
  kind := .added (FunctionCall.sampleItem "")
  event := object [("type", .string "response.output_item.added"), ("item", FunctionCall.sampleItem "")]
  reports := by
    refine ⟨rfl, rfl, rfl, nofun, ?_⟩
    intro shown isCall
    cases isCall
    exact ⟨"", rfl, rfl, rfl, rfl, rfl⟩

def Output.sampleCompleted : Json :=
  object [("type", .string "response.completed"),
    ("response", object [("output", array (Output.sample.items.map OutputItem.item))])]

theorem Output.sample_completed : Output.sample.Completed Output.sampleCompleted := ⟨rfl, rfl⟩

theorem ToolCallAccumulatorSet.assembles_iff_sample :
    ∃ set, empty.applyEvents ([(StreamEvent.sample, false)].map (fun event => (event.1.event, event.2)) ++
        [(Output.sampleCompleted, false)]) = .ok set ∧
      (set.yielded.map ToolCallAccumulator.request = Output.sample.calls.map FunctionCall.request ↔
        Slots.Lands (fun index => (Output.sample.callAt index).isSome = true) .empty
          ([(StreamEvent.sample, false)].filterMap fun event => event.1.mention)) :=
  assembles_iff .sample (fun _ => false) [(.sample, false)] Output.sampleCompleted false Output.sample_completed

/-- The call is known of under the place of the reasoning, and once more under its own. -/
theorem ToolCallAccumulatorSet.sample_doubled :
    ¬ ∀ (output : Output) (indexed : ℕ → Bool) (stream : List (StreamEvent output indexed × Bool)) (completed : Json)
        (flag : Bool), output.Completed completed →
      ∃ set, empty.applyEvents (stream.map (fun event => (event.1.event, event.2)) ++ [(completed, flag)]) = .ok set ∧
        set.yielded.map ToolCallAccumulator.request = output.calls.map FunctionCall.request := by
  intro claimed
  obtain ⟨set, ran, yields⟩ := claimed .sample (fun _ => false) [(.sample, false)] Output.sampleCompleted false
    Output.sample_completed
  cases ran
  exact absurd yields (by decide +kernel)

end Warp.Proxy
