import Warp.Lib.Trace
import Warp.Sync.Steps

namespace Warp.Sync

open List Option

variable {id : QueueItemId} {item : QueueItem} {s s' t t' : SyncQueue}

def QueueItem.references : QueueItem → List SyncId
  | createWorkflow _ model => model.objectIds
  | updateWorkflow model _ _ => model.objectIds
  | _ => []

def QueueItem.inferenceFailures (s : SyncQueue) : QueueItem → List (ObjectUid × SyncQueueEvent)
  | createWorkflow info _ => [(.clientId info.id, .objectCreationFailure (.other (.clientId info.id) .user)),
      (.clientId info.id, .objectCreationFailure (.other (.clientId info.id) info.initiatedBy))]
  | updateWorkflow _ id _ => [(id, .objectCreationFailure (.other id .user)),
      (s.updatedSyncId id, .objectUpdateFailure (s.updatedSyncId id))]
  | _ => []

namespace SyncQueue

def resolvable (s : SyncQueue) (id : SyncId) : Bool := (s.tryServerId id).isSome || s.getItemsWithObjectId id ≠ ∅

def inferable (s : SyncQueue) (item : QueueItem) : Bool := item.references.all s.resolvable

section Inference

theorem resolveObjects_isSome (ids : List SyncId) (model : Workflow) (dependencies : Finset QueueItemId) :
    (s.resolveObjects ids model dependencies).2.isSome = ids.all s.resolvable := by
  induction ids generalizing model dependencies with
  | nil => rfl
  | cons id ids ih =>
    rw [all_cons, resolveObjects]
    cases known : s.tryServerId id with
    | some serverId =>
      have here : s.resolvable id = true := by simp [resolvable, known]
      rw [here, Bool.true_and]
      exact ih _ _
    | none =>
      dsimp only
      by_cases none : s.getItemsWithObjectId id = ∅
      · have here : s.resolvable id = false := by simp [resolvable, known, none]
        rw [if_pos none, here]
        rfl
      · have here : s.resolvable id = true := by simp [resolvable, none]
        rw [if_neg none, here, Bool.true_and]
        exact ih _ _

def Worked (s : SyncQueue) (id : QueueItemId) : Prop := id ∈ ids s.queue ∨ ∃ uid, id ∈ s.waitingResponse uid

theorem mem_getItemsWithObjectId {uid : ObjectUid} : id ∈ s.getItemsWithObjectId uid ↔
    (∃ item, (id, item) ∈ s.queue ∧ item.worksOn uid) ∨ id ∈ s.waitingResponse uid := by
  simp [getItemsWithObjectId]

theorem worked_of_mem {uid : ObjectUid} (member : id ∈ s.getItemsWithObjectId uid) : s.Worked id := by
  rcases mem_getItemsWithObjectId.mp member with ⟨item, member, -⟩ | member
  · exact .inl (mem_ids member)
  · exact .inr ⟨uid, member⟩

theorem worked_of_mem_update {syncId : SyncId} (member : id ∈ s.getUpdateDependencies syncId) : s.Worked id := by
  unfold getUpdateDependencies at member
  cases converted : s.convertedId syncId with
  | none =>
    rw [converted] at member
    exact worked_of_mem member
  | some other =>
    rw [converted] at member
    rcases Finset.mem_union.mp member with member | member
    · exact worked_of_mem member
    · exact worked_of_mem member

theorem worked_of_resolveObjects {ids : List SyncId} {model : Workflow} {earlier dependencies : Finset QueueItemId}
    (resolved : (s.resolveObjects ids model earlier).2 = some dependencies) (before : ∀ i ∈ earlier, s.Worked i) :
    ∀ i ∈ dependencies, s.Worked i := by
  induction ids generalizing model earlier with
  | nil => exact Option.some.inj resolved ▸ before
  | cons id ids ih =>
    unfold resolveObjects at resolved
    cases found : s.tryServerId id with
    | some serverId =>
      rw [found] at resolved
      exact ih resolved before
    | none =>
      rw [found] at resolved
      dsimp only at resolved
      by_cases none : s.getItemsWithObjectId id = ∅
      · rw [if_pos none] at resolved
        cases resolved
      · rw [if_neg none] at resolved
        apply ih resolved
        intro i member
        rcases Finset.mem_union.mp member with member | member
        · exact before i member
        · exact worked_of_mem member

variable {workflowId : SyncId}

theorem getWorkflowObjectDependencies_some {model model' : Workflow} {dependencies : Finset QueueItemId}
    (resolved : s.resolveObjects model.objectIds model ∅ = (model', some dependencies)) :
    s.getWorkflowObjectDependencies model workflowId id = (s, model', some dependencies) := by
  rw [getWorkflowObjectDependencies, resolved]

theorem getWorkflowObjectDependencies_none {model model' : Workflow}
    (resolved : s.resolveObjects model.objectIds model ∅ = (model', none)) :
    s.getWorkflowObjectDependencies model workflowId id =
      (s.handleCreationFailureResponse workflowId id .user, model', none) := by
  rw [getWorkflowObjectDependencies, resolved]

def inferred (s : SyncQueue) (item : QueueItem) : QueueItem × Finset QueueItemId := (s.inferDependencies item s.nextId).2

theorem inferDependencies_eq (item : QueueItem) (closed : s.inferable item = false → Closed id s) :
    s.inferDependencies item id = (if s.inferable item then s
      else s.reportFailures handleDependencyFailure id (item.inferenceFailures s), s.inferred item) := by
  have same : s.inferable item = false → ∀ syncId uid,
      (s.handleCreationFailureResponse uid id .user).updatedSyncId syncId = s.updatedSyncId syncId := by
    intro inferable syncId uid
    have unchanged : handleDependencyFailure id (s.stopWaiting id uid) = s.stopWaiting id uid :=
      handleDependencyFailure_closed (closed inferable)
    unfold handleCreationFailureResponse creationFailureResponse creationFailure
    rw [unchanged]
    cases syncId <;> rfl
  cases item with
  | createWorkflow info model =>
    have whole := resolveObjects_isSome (s := s) model.objectIds model ∅
    rcases found : s.resolveObjects model.objectIds model ∅ with ⟨model', _ | dependencies⟩
    case some =>
      have inferable : s.inferable (.createWorkflow info model) = true := by
        rw [found] at whole
        exact whole.symm
      simp only [inferred, inferDependencies, getWorkflowObjectDependencies_some found, if_pos inferable]
    case none =>
      have inferable : ¬ s.inferable (.createWorkflow info model) = true := by
        rw [found] at whole
        exact (Bool.eq_false_iff.mp (show s.inferable _ = false from whole.symm))
      simp only [inferred, inferDependencies, getWorkflowObjectDependencies_none found, if_neg inferable]
      rfl
  | updateWorkflow model syncId revision =>
    have whole := resolveObjects_isSome (s := s) model.objectIds model ∅
    rcases found : s.resolveObjects model.objectIds model ∅ with ⟨model', _ | dependencies⟩
    case some =>
      have inferable : s.inferable (.updateWorkflow model syncId revision) = true := by
        rw [found] at whole
        exact whole.symm
      simp only [inferred, inferDependencies, getWorkflowObjectDependencies_some found, if_pos inferable]
    case none =>
      have inferable : ¬ s.inferable (.updateWorkflow model syncId revision) = true := by
        rw [found] at whole
        exact (Bool.eq_false_iff.mp (show s.inferable _ = false from whole.symm))
      simp only [inferred, inferDependencies, getWorkflowObjectDependencies_none found, if_neg inferable]
      unfold handleUpdateFailureResponse updateFailureResponse
      rw [same (Bool.eq_false_iff.mpr inferable)]
      rfl
  | createObject | bulkCreateGenericStringObjects | update | recordObjectAction => rfl

end Inference

/-- What holds of the ids in every run. -/
structure Shaped (s : SyncQueue) : Prop where
  nodup : (ids s.queue).Nodup
  below : ∀ i ∈ ids s.queue, i < s.nextId
  keys : ∀ i, (s.queueDependencies i).isSome ↔ i ∈ ids s.queue
  reporting : s.Reporting
  flightsNodup : (s.flights.map Flight.itemId).Nodup
  flightsBelow : ∀ i ∈ s.flights.map Flight.itemId, i < s.nextId
  apart : ∀ i ∈ s.flights.map Flight.itemId, i ∉ ids s.queue
  dependsBelow : ∀ i dependencies, s.queueDependencies i = some dependencies → ∀ d ∈ dependencies, d < s.nextId
  waitingBelow : ∀ uid, ∀ i ∈ s.waitingResponse uid, i < s.nextId

def Gone (id : QueueItemId) (s : SyncQueue) : Prop :=
  id < s.nextId ∧ id ∉ ids s.queue ∧ id ∉ s.flights.map Flight.itemId

section Shape

variable {reports : List (ObjectUid × SyncQueueEvent)} {failed : List (QueueItemId × QueueItem)} {event : SyncQueueEvent}

theorem mem_without {entry : QueueItemId × QueueItem} : entry ∈ (s.without id).queue ↔ entry ∈ s.queue ∧ entry.1 ≠ id := by
  simp [without, removeIdFromQueue, setDependencies]

variable {i : QueueItemId} {dependencies : Finset QueueItemId}

theorem mem_ids_without : i ∈ ids (s.without id).queue ↔ i ∈ ids s.queue ∧ i ≠ id := by
  rw [mem_ids_iff, mem_ids_iff]
  simp [mem_without]

theorem without_dependencies :
    (s.without id).queueDependencies i = some dependencies ↔ i ≠ id ∧ s.queueDependencies i = some dependencies := by
  unfold without setDependencies removeIdFromQueue
  dsimp only
  by_cases same : i = id
  · rw [if_pos same]
    simp [same]
  · rw [if_neg same]
    simp [same]

theorem Shaped.without (shaped : Shaped s) (id : QueueItemId) : Shaped (s.without id) where
  nodup := shaped.nodup.sublist (List.filter_sublist.map _)
  below i member := shaped.below i (mem_ids_without.mp member).1
  keys i := by
    rw [isSome_iff_exists, mem_ids_without, ← shaped.keys, isSome_iff_exists]
    simp only [without_dependencies, exists_and_left, and_comm]
  reporting entry queued dependencies known some :=
    shaped.reporting entry (mem_without.mp queued).1 dependencies (without_dependencies.mp known).2 some
  flightsNodup := shaped.flightsNodup
  flightsBelow := shaped.flightsBelow
  apart i flight member := shaped.apart i flight (mem_ids_without.mp member).1
  dependsBelow i dependencies known := shaped.dependsBelow i dependencies (without_dependencies.mp known).2
  waitingBelow := shaped.waitingBelow

theorem Shaped.gone_without (shaped : Shaped s) (queued : id ∈ ids s.queue) : Gone id (s.without id) :=
  ⟨shaped.below id queued, fun member => (mem_ids_without.mp member).2 rfl, fun flight => shaped.apart id flight queued⟩

theorem Shaped.awaitAll (shaped : Shaped s) (below : id < s.nextId) (uids : List ObjectUid) :
    Shaped (s.awaitAll id uids) := by
  have waiting : ∀ uid, ∀ i ∈ (s.awaitAll id uids).waitingResponse uid, i < s.nextId := by
    intro uid i member
    rcases mem_awaitAll.mp member with member | ⟨rfl, -⟩
    · exact shaped.waitingBelow uid i member
    · exact below
  rw [awaitAll_eq]
  exact ⟨shaped.nodup, shaped.below, shaped.keys, shaped.reporting, shaped.flightsNodup, shaped.flightsBelow,
    shaped.apart, shaped.dependsBelow, waiting⟩

theorem Gone.awaitAll (gone : Gone i s) (id : QueueItemId) (uids : List ObjectUid) :
    Gone i (s.awaitAll id uids) := by
  rw [awaitAll_eq]
  exact gone

theorem Shaped.spawn (shaped : Shaped s) (gone : Gone id s) (request : Request) : Shaped (s.spawn id request) := by
  have flights : (s.spawn id request).flights.map Flight.itemId = s.flights.map Flight.itemId ++ [id] := by
    simp [SyncQueue.spawn]
  constructor
  case flightsNodup =>
    rw [flights]
    exact List.Nodup.append shaped.flightsNodup (nodup_singleton id)
      fun i member same => gone.2.2 (List.mem_singleton.mp same ▸ member)
  case flightsBelow =>
    intro i member
    rw [flights] at member
    rcases List.mem_append.mp member with member | member
    · exact shaped.flightsBelow i member
    · exact List.mem_singleton.mp member ▸ gone.1
  case apart =>
    intro i member
    rw [flights] at member
    rcases List.mem_append.mp member with member | member
    · exact shaped.apart i member
    · exact List.mem_singleton.mp member ▸ gone.2.1
  case nodup => exact shaped.nodup
  case below => exact shaped.below
  case keys => exact shaped.keys
  case reporting => exact shaped.reporting
  case dependsBelow => exact shaped.dependsBelow
  case waitingBelow => exact shaped.waitingBelow

theorem Failed.mem_ids (result : Failed id reports failed s s') :
    i ∈ ids s'.queue ↔ i ∈ ids s.queue ∧ i ∉ ids failed := by
  rw [mem_ids_iff, mem_ids_iff]
  simp [result.mem_queue]

theorem Shaped.fail (shaped : Shaped s) (result : Failed id reports failed s s') : Shaped s' := by
  have nextId : s'.nextId = s.nextId := by rw [result.same]
  have flights : s'.flights = s.flights := by rw [result.same]
  constructor
  case nodup =>
    rw [result.queue]
    exact shaped.nodup.sublist (List.filter_sublist.map _)
  case below =>
    intro i member
    rw [nextId]
    exact shaped.below i (result.mem_ids.mp member).1
  case keys =>
    intro i
    rw [result.mem_ids, result.queueDependencies, ← shaped.keys]
    by_cases member : i ∈ Sync.ids failed <;> simp [member]
  case reporting => exact result.reporting shaped.reporting
  case flightsNodup => exact flights ▸ shaped.flightsNodup
  case flightsBelow => exact flights ▸ nextId ▸ shaped.flightsBelow
  case apart =>
    intro i flight member
    exact shaped.apart i (flights ▸ flight) (result.mem_ids.mp member).1
  case dependsBelow =>
    intro i dependencies known
    rw [nextId]
    exact shaped.dependsBelow i dependencies (result.of_dependencies known).2
  case waitingBelow =>
    intro uid i member
    rw [nextId]
    exact shaped.waitingBelow uid i (result.waits uid i member)

theorem Gone.fail (gone : Gone i s) (result : Failed id reports failed s s') : Gone i s' := by
  have nextId : s'.nextId = s.nextId := by rw [result.same]
  have flights : s'.flights = s.flights := by rw [result.same]
  exact ⟨nextId ▸ gone.1, fun member => gone.2.1 (result.mem_ids.mp member).1, flights ▸ gone.2.2⟩

theorem Settled.known (result : Settled id event s s') (known : s'.queueDependencies i = some dependencies) :
    ∃ before, s.queueDependencies i = some before ∧ dependencies = before.erase id := by
  rw [result.queueDependencies] at known
  obtain ⟨before, known, same⟩ := Option.map_eq_some_iff.mp known
  exact ⟨before, known, same.symm⟩

theorem QueueItem.failures_ne_nil (s t : SyncQueue) (item : QueueItem) (some : item.failures s ≠ []) :
    item.failures t ≠ [] := by
  cases item with
  | bulkCreateGenericStringObjects => exact some
  | _ => exact cons_ne_nil _ _

theorem Shaped.settle (shaped : Shaped s) (result : Settled id event s s') : Shaped s' := by
  have nextId : s'.nextId = s.nextId := by rw [result.same]
  have flights : s'.flights = s.flights := by rw [result.same]
  constructor
  case nodup => exact result.ids ▸ shaped.nodup
  case below => exact result.ids ▸ nextId ▸ shaped.below
  case keys =>
    intro i
    rw [result.ids, result.queueDependencies, ← shaped.keys]
    rw [isSome_map]
  case reporting =>
    intro entry queued dependencies known some
    obtain ⟨before, known', rfl⟩ := result.known known
    obtain ⟨item, queued, shape⟩ := mem_of_shapes result.shapes queued
    have some : before ≠ ∅ := fun none => some (by rw [none, Finset.erase_empty])
    rw [← QueueItem.failures_shape, ← shape, QueueItem.failures_shape]
    exact QueueItem.failures_ne_nil s s' item (shaped.reporting _ queued before known' some)
  case flightsNodup => exact flights ▸ shaped.flightsNodup
  case flightsBelow => exact flights ▸ nextId ▸ shaped.flightsBelow
  case apart => exact flights ▸ result.ids ▸ shaped.apart
  case dependsBelow =>
    intro i dependencies known d member
    obtain ⟨before, known', rfl⟩ := result.known known
    rw [nextId]
    exact shaped.dependsBelow i before known' d (Finset.mem_of_mem_erase member)
  case waitingBelow =>
    intro uid i member
    rw [nextId]
    exact shaped.waitingBelow uid i ((result.waiting uid i).mp member).1

theorem Gone.settle (gone : Gone i s) (result : Settled id event s s') : Gone i s' := by
  have nextId : s'.nextId = s.nextId := by rw [result.same]
  have flights : s'.flights = s.flights := by rw [result.same]
  exact ⟨nextId ▸ gone.1, result.ids ▸ gone.2.1, flights ▸ gone.2.2⟩

theorem Shaped.reshape (shaped : Shaped s) {queue : List (QueueItemId × QueueItem)}
    (same : shapes queue = shapes s.queue) : Shaped { s with queue := queue } := by
  have sameIds : ids queue = ids s.queue := ids_of_shapes same
  constructor
  case nodup => exact sameIds ▸ shaped.nodup
  case below => exact sameIds ▸ shaped.below
  case keys => exact sameIds ▸ shaped.keys
  case reporting =>
    intro entry queued dependencies known some
    obtain ⟨item, queued, shape⟩ := mem_of_shapes same queued
    rw [← QueueItem.failures_shape, ← shape, QueueItem.failures_shape]
    exact QueueItem.failures_ne_nil s _ item (shaped.reporting _ queued dependencies known some)
  case flightsNodup => exact shaped.flightsNodup
  case flightsBelow => exact shaped.flightsBelow
  case apart => exact sameIds ▸ shaped.apart
  case dependsBelow => exact shaped.dependsBelow
  case waitingBelow => exact shaped.waitingBelow

theorem updateDependenciesOnCreation_eq (id : QueueItemId) (clientId : ClientId) (serverId : ServerId)
    (objectType : ObjectType) : ∃ queue, shapes queue = shapes s.queue ∧
      s.updateDependenciesOnCreation id clientId serverId objectType = { s with queue := queue } := by
  unfold updateDependenciesOnCreation
  by_cases typed : objectType = .genericStringObject .workflowEnum ∨ objectType = .genericStringObject .envVarCollection
  · rw [if_pos typed]
    refine ⟨_, ?_, rfl⟩
    rw [shapes, List.map_map]
    apply map_congr_left
    intro entry _
    by_cases depends : (s.queueDependencies entry.1).any (id ∈ ·) <;> simp [depends]
  · rw [if_neg typed]
    exact ⟨s.queue, rfl, rfl⟩

theorem Shaped.land (shaped : Shaped s) (flight : Flight) : Shaped (s.land flight) where
  nodup := shaped.nodup
  below := shaped.below
  keys := shaped.keys
  reporting := shaped.reporting
  flightsNodup := shaped.flightsNodup.sublist (List.erase_sublist.map _)
  flightsBelow i member := shaped.flightsBelow i (((erase_sublist (l := s.flights)).map _).subset member)
  apart i member := shaped.apart i (((erase_sublist (l := s.flights)).map _).subset member)
  dependsBelow := shaped.dependsBelow
  waitingBelow := shaped.waitingBelow

theorem Shaped.gone_land (shaped : Shaped s) {flight : Flight} (flies : flight ∈ s.flights) :
    Gone flight.itemId (s.land flight) := by
  have id : flight.itemId ∈ s.flights.map Flight.itemId := List.mem_map_of_mem flies
  refine ⟨shaped.flightsBelow _ id, shaped.apart _ id, ?_⟩
  intro member
  obtain ⟨other, flies', same⟩ := List.mem_map.mp member
  have nodup : s.flights.Nodup := shaped.flightsNodup.of_map
  obtain ⟨ne, flies'⟩ := (List.Nodup.mem_erase_iff nodup).mp flies'
  exact ne (inj_on_of_nodup_map shaped.flightsNodup flies' flies same)

end Shape

/-- What a call of `dequeue` can do. -/
inductive Dequeued (skips : QueueItem → Bool) : SyncQueue → SyncQueue → Prop where
  | stays {s : SyncQueue} (idle : s.shouldDequeue → ∀ entry ∈ s.queue, s.queueDependencies entry.1 ≠ some ∅) : Dequeued skips s s
  | sent {s : SyncQueue} {entry request} (queued : entry ∈ s.queue) (ready : s.queueDependencies entry.1 = some ∅)
    (known : entry.2.request s = some request) :
    Dequeued skips s (((s.without entry.1).awaitAll entry.1 (entry.2.awaits s)).spawn entry.1 request)
  | dropped {s t s' : SyncQueue} {entry failed} (queued : entry ∈ s.queue) (ready : s.queueDependencies entry.1 = some ∅)
    (unknown : entry.2.request s = none) (update : entry.2.isUpdate)
    (fails : Failed entry.1 (entry.2.failures s) failed (s.without entry.1) t) (closed : Closed entry.1 t)
    (rest : Dequeued skips t s') : Dequeued skips s s'
  | skipped {s s' : SyncQueue} {entry} (queued : entry ∈ s.queue) (ready : s.queueDependencies entry.1 = some ∅)
    (unknown : entry.2.request s = none) (other : entry.2.isUpdate = false) (skip : skips entry.2)
    (rest : Dequeued skips ((s.without entry.1).awaitAll entry.1 (entry.2.awaits s)) s') : Dequeued skips s s'

/-- Every item that `dequeue` takes is sent, or fails, or is one that may be passed over: creations whose folder and
actions whose object has no server id are passed over. -/
def takesKnownUpTo (skips : QueueItem → Bool) : ℕ → SyncQueue → Bool
  | 0, _ => true
  | fuel + 1, s =>
    if s.shouldDequeue then
      match s.queue.find? s.isReady with
      | some entry => (entry.2.request s).isSome ||
          (entry.2.isUpdate || skips entry.2) && takesKnownUpTo skips fuel ((s.takeReady entry).passOver entry)
      | none => true
    else true

def takesKnown (skips : QueueItem → Bool) (s : SyncQueue) : Bool := takesKnownUpTo skips s.queue.length s

theorem takesKnown_all (s : SyncQueue) : s.takesKnown (fun _ => true) = true := by
  have all : ∀ fuel s, takesKnownUpTo (fun _ => true) fuel s = true := by
    intro fuel
    induction fuel with
    | zero => exact fun _ => rfl
    | succ fuel ih =>
      intro s
      unfold takesKnownUpTo
      cases s.shouldDequeue with
      | false => rfl
      | true =>
        cases s.queue.find? s.isReady with
        | none => rfl
        | some entry => simp [ih]
  exact all _ _

section Dequeue

variable {skips : QueueItem → Bool} {entry : QueueItemId × QueueItem}

theorem Shaped.takeReady_eq (shaped : Shaped s) (first : s.queue.find? s.isReady = some entry) :
    s.takeReady entry = s.without entry.1 := by
  have erased : s.queue.eraseP s.isReady = s.queue.filter fun other => other.1 ≠ entry.1 := by
    obtain ⟨ready, before, after, split, earlier⟩ := List.find?_eq_some_iff_append.mp first
    have nodup : (ids (before ++ entry :: after)).Nodup := split ▸ shaped.nodup
    rw [ids_append, ids_cons, nodup_append] at nodup
    rw [split, eraseP_append_right _ (fun other member => by simpa using earlier other member),
      eraseP_cons_of_pos ready, filter_append, filter_cons_of_neg (by simp),
      List.filter_eq_self.mpr, List.filter_eq_self.mpr]
    · intro other member
      exact decide_eq_true fun same => (List.nodup_cons.mp nodup.2.1).1 (same ▸ mem_ids member)
    · intro other member
      exact decide_eq_true fun same => nodup.2.2 _ (mem_ids member) _ mem_cons_self same
  unfold takeReady SyncQueue.without removeIdFromQueue
  rw [erased]

theorem dequeueUpTo_dequeued : ∀ fuel s, Shaped s → s.queue.length ≤ fuel → takesKnownUpTo skips fuel s →
    Dequeued skips s (dequeueUpTo fuel s) := by
  intro fuel
  induction fuel with
  | zero =>
    intro s _ short _
    apply Dequeued.stays
    intro _ entry queued
    rw [eq_nil_of_length_eq_zero (Nat.le_zero.mp short)] at queued
    exact absurd queued not_mem_nil
  | succ fuel ih =>
    intro s shaped short known
    unfold dequeueUpTo
    unfold takesKnownUpTo at known
    by_cases enabled : s.shouldDequeue
    · rw [if_pos enabled] at known ⊢
      cases first : s.queue.find? s.isReady with
      | none =>
        apply Dequeued.stays
        intro _ entry queued ready
        exact List.find?_eq_none.mp first entry queued (decide_eq_true ready)
      | some entry =>
        have queued : entry ∈ s.queue := mem_of_find?_eq_some first
        have ready : s.isReady entry = true := List.find?_some first
        have ready : s.queueDependencies entry.1 = some ∅ := of_decide_eq_true ready
        rw [first] at known
        dsimp only at known ⊢
        rw [shaped.takeReady_eq first] at known ⊢
        rw [dequeueItem_eq]
        have shaped' := shaped.without entry.1
        have gone : Gone entry.1 (s.without entry.1) := shaped.gone_without (mem_ids queued)
        have fewer : (s.without entry.1).queue.length < s.queue.length :=
          List.length_filter_lt_length_iff_exists.mpr ⟨entry, queued, by simp⟩
        have sameRequest : entry.2.request (s.without entry.1) = entry.2.request s := rfl
        rw [sameRequest]
        cases isRequest : entry.2.request s with
        | some request => exact .sent queued ready isRequest
        | none =>
          rw [isRequest, isSome_none, Bool.false_or, Bool.and_eq_true] at known
          obtain ⟨may, known⟩ := known
          cases update : entry.2.isUpdate with
          | true =>
            have reports : entry.2.failures (s.without entry.1) ≠ [] := by
              cases item : entry.2 with
              | update | updateWorkflow => exact cons_ne_nil _ _
              | _ => rw [item] at update; cases update
            obtain ⟨failed, fails, closed⟩ := reportFailures_spec gone.2.1 shaped'.reporting reports
            have pass : (s.without entry.1).passOver entry = (s.without entry.1).reportFailures handleDependencyFailure
                entry.1 (entry.2.failures (s.without entry.1)) := if_pos update
            rw [pass] at known
            rw [elim_none, pass]
            refine .dropped queued ready isRequest update fails closed (ih _ (shaped'.fail fails) ?_ known)
            have := fails.length_le
            omega
          | false =>
            have pass : (s.without entry.1).passOver entry = (s.without entry.1).awaitAll entry.1 (entry.2.awaits s) :=
              if_neg (by rw [update]; exact Bool.false_ne_true)
            rw [update, Bool.false_or] at may
            rw [pass] at known
            rw [elim_none, pass]
            have shaped'' := shaped'.awaitAll gone.1 (entry.2.awaits s)
            refine .skipped queued ready isRequest update may (ih _ shaped'' ?_ known)
            rw [awaitAll_eq]
            exact Nat.le_of_lt_succ (fewer.trans_le short)
    · rw [if_neg enabled]
      exact .stays fun enabled' => absurd enabled' enabled

theorem Shaped.dequeued (shaped : Shaped s) (known : s.takesKnown skips) : Dequeued skips s s.dequeue :=
  dequeueUpTo_dequeued s.queue.length s shaped le_rfl known

theorem Dequeued.shaped (dequeued : Dequeued skips s s') (shaped : Shaped s) : Shaped s' ∧ ∀ i, Gone i s → Gone i s' := by
  induction dequeued with
  | stays => exact ⟨shaped, fun i gone => gone⟩
  | @sent s entry request queued ready known =>
    have gone := shaped.gone_without (mem_ids queued)
    have awaiting := (shaped.without entry.1).awaitAll gone.1 (entry.2.awaits s)
    refine ⟨awaiting.spawn (gone.awaitAll ..) request, fun i goneBefore => ?_⟩
    rw [awaitAll_eq]
    refine ⟨goneBefore.1, fun member => goneBefore.2.1 (mem_ids_without.mp member).1, fun member => ?_⟩
    rcases List.mem_append.mp (map_append ▸ member) with member | member
    · exact goneBefore.2.2 member
    · exact goneBefore.2.1 (List.mem_singleton.mp member ▸ mem_ids queued)
  | @dropped s t s' entry failed queued ready unknown update fails closed rest ih =>
    obtain ⟨shaped', later⟩ := ih ((shaped.without entry.1).fail fails)
    refine ⟨shaped', fun i goneBefore => later i (Gone.fail (s := s.without entry.1) ?_ fails)⟩
    exact ⟨goneBefore.1, fun member => goneBefore.2.1 (mem_ids_without.mp member).1, goneBefore.2.2⟩
  | @skipped s s' entry queued ready unknown other skip rest ih =>
    have gone := shaped.gone_without (mem_ids queued)
    obtain ⟨shaped', later⟩ := ih ((shaped.without entry.1).awaitAll gone.1 (entry.2.awaits s))
    refine ⟨shaped', fun i goneBefore => later i (Gone.awaitAll (s := s.without entry.1) ?_ ..)⟩
    exact ⟨goneBefore.1, fun member => goneBefore.2.1 (mem_ids_without.mp member).1, goneBefore.2.2⟩

end Dequeue

theorem inferred_shape (item : QueueItem) : (s.inferred item).1.shape = item.shape := by
  cases item with
  | createWorkflow info model =>
    rcases found : s.resolveObjects model.objectIds model ∅ with ⟨model', _ | dependencies⟩
    · simp only [inferred, inferDependencies, getWorkflowObjectDependencies_none found]
      rfl
    · simp only [inferred, inferDependencies, getWorkflowObjectDependencies_some found]
      rfl
  | updateWorkflow model syncId revision =>
    rcases found : s.resolveObjects model.objectIds model ∅ with ⟨model', _ | dependencies⟩
    · simp only [inferred, inferDependencies, getWorkflowObjectDependencies_none found]
      rfl
    · simp only [inferred, inferDependencies, getWorkflowObjectDependencies_some found]
      rfl
  | _ => rfl

theorem inferred_worked (item : QueueItem) : ∀ i ∈ (s.inferred item).2, s.Worked i := by
  intro i member
  cases item with
  | createWorkflow info model =>
    rcases found : s.resolveObjects model.objectIds model ∅ with ⟨model', _ | dependencies⟩
    · simp only [inferred, inferDependencies, getWorkflowObjectDependencies_none found] at member
      exact absurd member (Finset.notMem_empty i)
    · simp only [inferred, inferDependencies, getWorkflowObjectDependencies_some found] at member
      exact worked_of_resolveObjects (congrArg Prod.snd found) (by simp) i member
  | updateWorkflow model syncId revision =>
    rcases found : s.resolveObjects model.objectIds model ∅ with ⟨model', _ | dependencies⟩
    · simp only [inferred, inferDependencies, getWorkflowObjectDependencies_none found] at member
      exact worked_of_mem_update member
    · simp only [inferred, inferDependencies, getWorkflowObjectDependencies_some found] at member
      rcases Finset.mem_union.mp member with member | member
      · exact worked_of_mem_update member
      · exact worked_of_resolveObjects (congrArg Prod.snd found) (by simp) i member
  | update kind model syncId revision =>
    simp only [inferred, inferDependencies] at member
    by_cases infers : kind.infersDependencies
    · rw [if_pos infers] at member
      exact worked_of_mem_update member
    · rw [if_neg infers] at member
      exact absurd member (Finset.notMem_empty i)
  | createObject | bulkCreateGenericStringObjects | recordObjectAction => exact absurd member (Finset.notMem_empty i)

structure Pushed (item : QueueItem) (s s' : SyncQueue) : Prop where
  same : s' = { s with
    queue := s.queue ++ [(s.nextId, (s.inferred item).1)]
    queueDependencies := fun i => if i = s.nextId then some ((s.inferred item).2.erase s.nextId) else s.queueDependencies i
    events := s.events ++ if s.inferable item then [] else (item.inferenceFailures s).map fun report => ⟨s.nextId, report.2⟩
    nextId := s.nextId + 1
    enqueued := s.enqueued ++ [(s.nextId, item)] }

theorem Shaped.closed_nextId (shaped : Shaped s) : Closed s.nextId s := by
  intro entry _ dependencies known member
  exact lt_irrefl _ (shaped.dependsBelow entry.1 dependencies known _ member)

theorem Shaped.pushed (shaped : Shaped s) (item : QueueItem) : Pushed item s (s.push item) := by
  constructor
  unfold push addInferredDependencies
  dsimp only
  rw [inferDependencies_eq item fun _ => shaped.closed_nextId]
  by_cases inferable : s.inferable item
  · simp only [if_pos inferable, setDependencies, append_nil]
  · obtain ⟨same, waits⟩ := reportFailures_closed shaped.closed_nextId (item.inferenceFailures s)
    have waiting : (s.reportFailures handleDependencyFailure s.nextId (item.inferenceFailures s)).waitingResponse =
        s.waitingResponse := by
      funext uid
      ext i
      obtain ⟨before, after⟩ := waits uid i
      refine ⟨before, fun member => after ?_ member⟩
      exact Nat.ne_of_lt (shaped.waitingBelow uid i member)
    rw [waiting] at same
    simp only [if_neg inferable]
    rw [same]
    simp only [setDependencies]

namespace Pushed

theorem queue (pushed : Pushed item s s') : s'.queue = s.queue ++ [(s.nextId, (s.inferred item).1)] := by rw [pushed.same]

variable {i : QueueItemId}

section

variable (pushed : Pushed item s s')
include pushed

theorem mem_ids : i ∈ ids s'.queue ↔ i ∈ ids s.queue ∨ i = s.nextId := by
  rw [pushed.queue, ids_append, mem_append]
  simp

theorem known {dependencies : Finset QueueItemId} :
    s'.queueDependencies i = some dependencies ↔ i = s.nextId ∧ dependencies = (s.inferred item).2.erase s.nextId ∨
      i ≠ s.nextId ∧ s.queueDependencies i = some dependencies := by
  rw [pushed.same]
  dsimp only
  by_cases same : i = s.nextId
  · rw [if_pos same]
    simp [same, eq_comm]
  · rw [if_neg same]
    simp [same]

theorem events : s'.events = s.events ++
    if s.inferable item then [] else (item.inferenceFailures s).map fun report => ⟨s.nextId, report.2⟩ := by
  rw [pushed.same]

theorem own : s'.eventsOf s.nextId = s.eventsOf s.nextId ++
    if s.inferable item then [] else (item.inferenceFailures s).map Prod.snd := by
  unfold eventsOf
  rw [pushed.events]
  by_cases inferable : s.inferable item <;> simp [inferable, List.filter_map, Function.comp_def]

theorem others (ne : i ≠ s.nextId) : s'.eventsOf i = s.eventsOf i := by
  unfold eventsOf
  rw [pushed.events]
  by_cases inferable : s.inferable item <;> simp [inferable, List.filter_map, Function.comp_def, Ne.symm ne]

end

end Pushed

theorem Shaped.worked_below (shaped : Shaped s) {i : QueueItemId} (worked : s.Worked i) : i < s.nextId := by
  rcases worked with queued | ⟨uid, waits⟩
  · exact shaped.below i queued
  · exact shaped.waitingBelow uid i waits

theorem Shaped.push (shaped : Shaped s) (item : QueueItem) : Shaped (s.push item) := by
  have pushed := shaped.pushed item
  have flights : (s.push item).flights = s.flights := by rw [pushed.same]
  have nextId : (s.push item).nextId = s.nextId + 1 := by rw [pushed.same]
  have waiting : (s.push item).waitingResponse = s.waitingResponse := by rw [pushed.same]
  constructor
  case nodup =>
    rw [pushed.queue, ids_append]
    apply List.Nodup.append shaped.nodup (nodup_singleton _)
    intro i queued same
    rw [List.mem_singleton.mp same] at queued
    exact lt_irrefl _ (shaped.below _ queued)
  case below =>
    intro i member
    rw [nextId]
    rcases pushed.mem_ids.mp member with queued | rfl
    · exact Nat.lt_succ_of_lt (shaped.below i queued)
    · exact Nat.lt_succ_self _
  case keys =>
    intro i
    rw [isSome_iff_exists, pushed.mem_ids, ← shaped.keys, isSome_iff_exists]
    simp only [pushed.known]
    by_cases same : i = s.nextId <;> simp [same]
  case reporting =>
    intro entry queued dependencies known some
    rw [pushed.queue] at queued
    rcases pushed.known.mp known with ⟨own, rfl⟩ | ⟨ne, known⟩
    · rcases List.mem_append.mp queued with queued | queued
      · exact absurd (mem_ids queued) (own ▸ fun member => lt_irrefl _ (shaped.below _ member))
      · rw [List.mem_singleton.mp queued, ← QueueItem.failures_shape, inferred_shape, QueueItem.failures_shape]
        cases item with
        | bulkCreateGenericStringObjects => exact absurd rfl some
        | _ => exact cons_ne_nil _ _
    · rcases List.mem_append.mp queued with queued | queued
      · exact QueueItem.failures_ne_nil s _ entry.2 (shaped.reporting entry queued dependencies known some)
      · exact absurd (congrArg Prod.fst (List.mem_singleton.mp queued)) ne
  case flightsNodup => exact flights ▸ shaped.flightsNodup
  case flightsBelow =>
    intro i flight
    rw [flights] at flight
    exact nextId ▸ Nat.lt_succ_of_lt (shaped.flightsBelow i flight)
  case apart =>
    intro i flight member
    rw [flights] at flight
    rcases pushed.mem_ids.mp member with queued | rfl
    · exact shaped.apart i flight queued
    · exact lt_irrefl _ (shaped.flightsBelow _ flight)
  case dependsBelow =>
    intro i dependencies known d member
    rw [nextId]
    rcases pushed.known.mp known with ⟨-, rfl⟩ | ⟨-, known⟩
    · exact Nat.lt_succ_of_lt (shaped.worked_below (inferred_worked item d (Finset.mem_of_mem_erase member)))
    · exact Nat.lt_succ_of_lt (shaped.dependsBelow i dependencies known d member)
  case waitingBelow =>
    intro uid i member
    rw [waiting] at member
    exact nextId ▸ Nat.lt_succ_of_lt (shaped.waitingBelow uid i member)

theorem Gone.dequeue {i : QueueItemId} (gone : Gone i s) (shaped : Shaped s) : Gone i s.dequeue :=
  ((shaped.dequeued (takesKnown_all s)).shaped shaped).2 i gone

theorem Shaped.setShouldDequeue (shaped : Shaped s) (enabled : Bool) : Shaped { s with shouldDequeue := enabled } :=
  ⟨shaped.nodup, shaped.below, shaped.keys, shaped.reporting, shaped.flightsNodup, shaped.flightsBelow, shaped.apart,
    shaped.dependsBelow, shaped.waitingBelow⟩

theorem Shaped.clear (shaped : Shaped s) : Shaped s.clear where
  nodup := nodup_nil
  below := by simp [SyncQueue.clear]
  keys := by simp [SyncQueue.clear]
  reporting := by simp [SyncQueue.clear, Reporting]
  flightsNodup := shaped.flightsNodup
  flightsBelow := shaped.flightsBelow
  apart := by simp [SyncQueue.clear]
  dependsBelow := by simp [SyncQueue.clear]
  waitingBelow := by simp [SyncQueue.clear]

section Loading

variable {items : List QueueItem} {entries : List (QueueItemId × QueueItem)}

theorem getItemsWithObjectId_congr (queue : t.queue = s.queue) (waiting : t.waitingResponse = s.waitingResponse) :
    t.getItemsWithObjectId = s.getItemsWithObjectId := by
  funext uid
  unfold getItemsWithObjectId
  rw [queue, waiting]

theorem tryServerId_congr (client : t.clientIdToServer = s.clientIdToServer) : t.tryServerId = s.tryServerId := by
  funext syncId
  cases syncId with
  | clientId clientId => exact congrFun client clientId
  | serverId serverId => rfl

theorem inferred_congr (queue : t.queue = s.queue) (waiting : t.waitingResponse = s.waitingResponse)
    (client : t.clientIdToServer = s.clientIdToServer) (server : t.serverIdToClientHash = s.serverIdToClientHash)
    (item : QueueItem) : t.inferred item = s.inferred item := by
  have works := getItemsWithObjectId_congr queue waiting
  have known := tryServerId_congr client
  have updates : t.getUpdateDependencies = s.getUpdateDependencies := by
    funext syncId
    have converted : t.convertedId syncId = s.convertedId syncId := by
      cases syncId with
      | clientId clientId => exact congrArg (Option.map _) (congrFun client clientId)
      | serverId serverId => exact congrArg (Option.map _) (congrFun server serverId)
    unfold getUpdateDependencies
    rw [converted, works]
  have resolves : t.resolveObjects = s.resolveObjects := by
    funext ids
    induction ids with
    | nil => rfl
    | cons id ids ih =>
      funext model dependencies
      rw [resolveObjects, resolveObjects, known, works, ih]
  cases item with
  | createWorkflow info model =>
    rcases found : s.resolveObjects model.objectIds model ∅ with ⟨model', _ | dependencies⟩
    · simp only [inferred, inferDependencies, getWorkflowObjectDependencies_none found,
        getWorkflowObjectDependencies_none (resolves ▸ found)]
    · simp only [inferred, inferDependencies, getWorkflowObjectDependencies_some found,
        getWorkflowObjectDependencies_some (resolves ▸ found)]
  | updateWorkflow model syncId revision =>
    rcases found : s.resolveObjects model.objectIds model ∅ with ⟨model', _ | dependencies⟩
    · simp only [inferred, inferDependencies, getWorkflowObjectDependencies_none found,
        getWorkflowObjectDependencies_none (resolves ▸ found), updates]
    · simp only [inferred, inferDependencies, getWorkflowObjectDependencies_some found,
        getWorkflowObjectDependencies_some (resolves ▸ found), updates]
  | update kind model syncId revision => simp only [inferred, inferDependencies, updates]
  | createObject | bulkCreateGenericStringObjects | recordObjectAction => rfl

theorem inferable_congr (queue : t.queue = s.queue) (waiting : t.waitingResponse = s.waitingResponse)
    (client : t.clientIdToServer = s.clientIdToServer) (item : QueueItem) : t.inferable item = s.inferable item := by
  have resolvable : t.resolvable = s.resolvable := by
    funext syncId
    unfold SyncQueue.resolvable
    rw [getItemsWithObjectId_congr queue waiting, tryServerId_congr client]
  unfold inferable
  rw [resolvable]

theorem inferenceFailures_congr (client : t.clientIdToServer = s.clientIdToServer) (item : QueueItem) :
    item.inferenceFailures t = item.inferenceFailures s := by
  cases item with
  | updateWorkflow model syncId revision =>
    simp only [QueueItem.inferenceFailures, updatedSyncId, tryServerId_congr client]
  | _ => rfl

def loadedDependencies (entries : List (QueueItemId × QueueItem)) (s : SyncQueue) (i : QueueItemId) :
    Option (Finset QueueItemId) :=
  (entries.find? fun entry => entry.1 = i).map fun entry => (s.inferred entry.2).2.erase i

/-- No item waits for one whose inference fails. -/
def Quiet (s : SyncQueue) : Prop :=
  ∀ entry ∈ s.queue, s.inferable entry.2 = false → ∀ other ∈ s.queue, entry.1 ∉ (s.inferred other.2).2.erase other.1

/-- The state after the dependencies of some entries have been inferred. -/
structure Loaded (entries : List (QueueItemId × QueueItem)) (s s' : SyncQueue) : Prop where
  same : s' = { s with queueDependencies := loadedDependencies entries s, events := s'.events }
  events : ∀ entry ∈ entries, s'.eventsOf entry.1 = s.eventsOf entry.1 ++
    if s.inferable entry.2 then [] else (entry.2.inferenceFailures s).map Prod.snd
  others : ∀ i, i ∉ ids entries → s'.eventsOf i = s.eventsOf i

variable {entry : QueueItemId × QueueItem}

theorem Loaded.infer (loaded : Loaded entries s s') (quiet : Quiet s) (idle : ∀ uid, s.waitingResponse uid = ∅)
    (sub : ∀ entry ∈ entries, entry ∈ s.queue) (queued : entry ∈ s.queue) (fresh : entry.1 ∉ ids entries) :
    (s'.addInferredDependencies entry.2 entry.1).2 = (s.inferred entry.2).1 ∧
      Loaded (entries ++ [entry]) s (s'.addInferredDependencies entry.2 entry.1).1 := by
  have queue : s'.queue = s.queue := by rw [loaded.same]
  have waiting : s'.waitingResponse = s.waitingResponse := by rw [loaded.same]
  have client : s'.clientIdToServer = s.clientIdToServer := by rw [loaded.same]
  have server : s'.serverIdToClientHash = s.serverIdToClientHash := by rw [loaded.same]
  have inferred := inferred_congr queue waiting client server entry.2
  have inferable := inferable_congr queue waiting client entry.2
  have closed : s'.inferable entry.2 = false → Closed entry.1 s' := by
    intro fails other queued' dependencies known member
    rw [inferable] at fails
    rw [loaded.same] at known
    obtain ⟨found, isFound, rfl⟩ := Option.map_eq_some_iff.mp known
    have here : found.1 = other.1 := by simpa using List.find?_some isFound
    exact quiet entry queued fails found (sub found (mem_of_find?_eq_some isFound)) (here ▸ member)
  have dependencies : ∀ i, loadedDependencies (entries ++ [entry]) s i =
      if i = entry.1 then some ((s.inferred entry.2).2.erase entry.1) else loadedDependencies entries s i := by
    intro i
    unfold loadedDependencies
    rw [List.find?_append]
    by_cases same : i = entry.1
    · have none : entries.find? (fun other => other.1 = i) = none := by
        apply List.find?_eq_none.mpr
        intro other member found
        exact fresh (same ▸ of_decide_eq_true found ▸ mem_ids member)
      rw [if_pos same, none]
      simp [same]
    · rw [if_neg same, List.find?_cons_of_neg (by simpa using Ne.symm same), List.find?_nil, or_none]
  unfold addInferredDependencies
  rw [inferDependencies_eq entry.2 closed, inferred, inferable]
  refine ⟨rfl, ?_⟩
  by_cases may : s.inferable entry.2
  · rw [if_pos may]
    dsimp only
    constructor
    case same =>
      rw [setDependencies, loaded.same]
      congr 1
      funext i
      exact (dependencies i).symm
    case events =>
      intro other member
      rcases List.mem_append.mp member with member | member
      · exact loaded.events other member
      · rw [List.mem_singleton.mp member, if_pos may, append_nil]
        exact loaded.others _ fresh
    case others =>
      intro i absent
      rw [ids_append, mem_append, not_or] at absent
      exact loaded.others i absent.1
  · rw [if_neg may]
    dsimp only
    obtain ⟨same, waits⟩ := reportFailures_closed (closed (inferable.trans (Bool.eq_false_iff.mpr may)))
      (entry.2.inferenceFailures s')
    have waiting' : (s'.reportFailures handleDependencyFailure entry.1 (entry.2.inferenceFailures s')).waitingResponse =
        s.waitingResponse := by
      funext uid
      ext i
      rw [idle uid]
      refine ⟨fun member => ?_, fun member => absurd member (Finset.notMem_empty i)⟩
      have member := (waits uid i).1 member
      rwa [waiting, idle uid] at member
    rw [waiting', inferenceFailures_congr client] at same
    rw [inferenceFailures_congr client, same]
    have eventsOf : ∀ i, SyncQueue.eventsOf { s' with
        events := s'.events ++ (entry.2.inferenceFailures s).map fun report => ⟨entry.1, report.2⟩ } i =
        s'.eventsOf i ++ if i = entry.1 then (entry.2.inferenceFailures s).map Prod.snd else [] := by
      intro i
      unfold SyncQueue.eventsOf
      by_cases same : i = entry.1
      · simp [same, List.filter_map, Function.comp_def]
      · simp [same, List.filter_map, Function.comp_def, Ne.symm same]
    constructor
    case same =>
      rw [setDependencies, loaded.same]
      congr 1
      funext i
      exact (dependencies i).symm
    case events =>
      intro other member
      refine (eventsOf other.1).trans ?_
      rcases List.mem_append.mp member with member | member
      · have ne : other.1 ≠ entry.1 := fun same => fresh (same ▸ mem_ids member)
        rw [if_neg ne, append_nil]
        exact loaded.events other member
      · rw [List.mem_singleton.mp member, if_neg may, if_pos rfl, loaded.others _ fresh]
    case others =>
      intro i absent
      rw [ids_append, mem_append, not_or] at absent
      refine (eventsOf i).trans ?_
      have ne : i ≠ entry.1 := fun same => absent.2 (by simp [same])
      rw [if_neg ne, append_nil, loaded.others i absent.1]

theorem Loaded.foldl (quiet : Quiet s) (idle : ∀ uid, s.waitingResponse uid = ∅) :
    ∀ {rest entries : List (QueueItemId × QueueItem)} {s' : SyncQueue} {queue : List (QueueItemId × QueueItem)},
      (∀ entry ∈ entries ++ rest, entry ∈ s.queue) → (ids (entries ++ rest)).Nodup → Loaded entries s s' →
      ∃ t, rest.foldl (fun (self, queue) (itemId, item) =>
          let (self, item) := self.addInferredDependencies item itemId
          (self, queue ++ [(itemId, item)])) (s', queue) =
        (t, queue ++ rest.map fun entry => (entry.1, (s.inferred entry.2).1)) ∧ Loaded (entries ++ rest) s t := by
  intro rest
  induction rest with
  | nil =>
    intro entries s' queue _ _ loaded
    exact ⟨s', by simp, by rwa [append_nil]⟩
  | cons entry rest ih =>
    intro entries s' queue sub nodup loaded
    have split : entries ++ entry :: rest = (entries ++ [entry]) ++ rest := by simp
    have queued := sub entry (mem_append_right _ mem_cons_self)
    have fresh : entry.1 ∉ ids entries := by
      rw [ids_append, ids_cons, nodup_append] at nodup
      exact fun member => nodup.2.2 _ member _ mem_cons_self rfl
    obtain ⟨same, loaded'⟩ := loaded.infer quiet idle (fun other member => sub other (mem_append_left _ member))
      queued fresh
    obtain ⟨t, result, loaded''⟩ := @ih (entries ++ [entry]) _ (queue ++ [(entry.1, (s.inferred entry.2).1)])
      (split ▸ sub) (split ▸ nodup) loaded'
    refine ⟨t, ?_, split ▸ loaded''⟩
    rw [foldl_cons]
    dsimp only
    rw [same, result]
    simp

/-- The queue of `new`, when nothing waits for an item whose inference fails. -/
structure New (items : List QueueItem) (s : SyncQueue) : Prop where
  same : s = { loaded items with
    queue := (loaded items).queue.map fun entry => (entry.1, ((loaded items).inferred entry.2).1)
    queueDependencies := loadedDependencies (loaded items).queue (loaded items)
    events := s.events }
  events : ∀ entry ∈ (loaded items).queue, s.eventsOf entry.1 =
    if (loaded items).inferable entry.2 then [] else (entry.2.inferenceFailures (loaded items)).map Prod.snd
  others : ∀ i, i ∉ ids (loaded items).queue → s.eventsOf i = []

theorem ids_loaded (items : List QueueItem) : ids (loaded items).queue = List.range items.length := by
  simp only [ids, loaded, List.map_map]
  apply ext_getElem
  · simp
  · intro i _ _
    simp

theorem new_spec (quiet : Quiet (loaded items)) : New items (new items) := by
  have nodup : (ids (loaded items).queue).Nodup := ids_loaded items ▸ nodup_range
  have start : Loaded [] (loaded items) (loaded items) :=
    ⟨rfl, fun entry member => absurd member not_mem_nil, fun _ _ => rfl⟩
  obtain ⟨t, result, all⟩ := @Loaded.foldl (loaded items) quiet (fun _ => rfl) (loaded items).queue [] (loaded items) []
    (fun entry member => member) nodup start
  have isNew : new items = { t with
      queue := (loaded items).queue.map fun entry => (entry.1, ((loaded items).inferred entry.2).1) } := by
    unfold new initializeQueueDependencies
    rw [result]
    rfl
  constructor
  case same =>
    rw [isNew, all.same]
    rfl
  case events =>
    intro entry member
    rw [isNew]
    exact all.events entry member
  case others =>
    intro i absent
    rw [isNew]
    exact all.others i absent

theorem New.mem_queue (new : New items s) : entry ∈ s.queue ↔
    ∃ item, (entry.1, item) ∈ (loaded items).queue ∧ entry.2 = ((loaded items).inferred item).1 := by
  rw [new.same]
  dsimp only
  rw [List.mem_map]
  constructor
  · rintro ⟨other, member, rfl⟩
    exact ⟨other.2, member, rfl⟩
  · rintro ⟨item, member, same⟩
    exact ⟨(entry.1, item), member, Prod.ext rfl same.symm⟩

theorem New.ids (new : New items s) : ids s.queue = List.range items.length := by
  rw [new.same, ← ids_loaded]
  simp [Sync.ids, Function.comp_def]

theorem New.known (new : New items s) {i : QueueItemId} {dependencies : Finset QueueItemId}
    (known : s.queueDependencies i = some dependencies) :
    ∃ item, (i, item) ∈ (loaded items).queue ∧ dependencies = ((loaded items).inferred item).2.erase i := by
  rw [new.same] at known
  obtain ⟨found, isFound, same⟩ := Option.map_eq_some_iff.mp known
  have here : found.1 = i := by simpa using List.find?_some isFound
  exact ⟨found.2, here ▸ mem_of_find?_eq_some isFound, same.symm⟩

theorem New.shaped (new : New items s) : Shaped s := by
  have nextId : s.nextId = items.length := by rw [new.same]; rfl
  have flights : s.flights = [] := by rw [new.same]; rfl
  have waiting : ∀ uid, s.waitingResponse uid = ∅ := by rw [new.same]; exact fun _ => rfl
  constructor
  case nodup => exact new.ids ▸ nodup_range
  case below =>
    intro i member
    rw [new.ids] at member
    exact nextId ▸ List.mem_range.mp member
  case keys =>
    intro i
    rw [new.ids, ← ids_loaded, new.same]
    dsimp only
    unfold loadedDependencies
    rw [isSome_map, List.find?_isSome, mem_ids_iff]
    simp
  case reporting =>
    intro entry queued dependencies known some
    obtain ⟨item, member, same⟩ := new.mem_queue.mp queued
    obtain ⟨item', member', rfl⟩ := new.known known
    have nodup : (Sync.ids (loaded items).queue).Nodup := ids_loaded items ▸ nodup_range
    have sameItem : item' = item := by
      have := inj_on_of_nodup_map nodup member' member rfl
      exact (Prod.mk.inj this).2
    rw [same, ← QueueItem.failures_shape, inferred_shape, QueueItem.failures_shape]
    cases item with
    | bulkCreateGenericStringObjects => exact absurd (by rw [sameItem]; rfl) some
    | _ => exact cons_ne_nil _ _
  case flightsNodup => rw [flights]; exact nodup_nil
  case flightsBelow => rw [flights]; exact fun i member => absurd member not_mem_nil
  case apart => rw [flights]; exact fun i member => absurd member not_mem_nil
  case dependsBelow =>
    intro i dependencies known d member
    obtain ⟨item, -, rfl⟩ := new.known known
    have worked := inferred_worked item d (Finset.mem_of_mem_erase member)
    rcases worked with queued | ⟨uid, waits⟩
    · rw [ids_loaded] at queued
      exact nextId ▸ List.mem_range.mp queued
    · exact absurd waits (Finset.notMem_empty d)
  case waitingBelow =>
    intro uid i member
    rw [waiting uid] at member
    exact absurd member (Finset.notMem_empty i)

end Loading

end SyncQueue

end Warp.Sync
