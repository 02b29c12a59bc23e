import Warp.Sync.Cascade

namespace Warp.Sync

open List

variable {id : QueueItemId} {item : QueueItem} {s s' t t' : SyncQueue}

namespace QueueItem

/-- What no response changes of a queued item. -/
def shape : QueueItem → QueueItem
  | createWorkflow info _ => createWorkflow info (.agentMode "" "" [])
  | update kind model id _ => update kind model id none
  | updateWorkflow _ id _ => updateWorkflow (.agentMode "" "" []) id none
  | item => item

def unrevised : QueueItem → QueueItem
  | update kind model id _ => update kind model id none
  | updateWorkflow model id _ => updateWorkflow model id none
  | item => item

def isUpdate : QueueItem → Bool
  | update .. | updateWorkflow .. => true
  | _ => false

def objects : QueueItem → List ObjectUid
  | createObject info _ _ => [.clientId info.id]
  | createWorkflow info _ => [.clientId info.id]
  | bulkCreateGenericStringObjects _ objects => objects.map fun object => .clientId object.id
  | update _ _ id _ => [id]
  | updateWorkflow _ id _ => [id]
  | recordObjectAction id _ _ _ => [id]

theorem failures_shape (item : QueueItem) (s : SyncQueue) : item.shape.failures s = item.failures s := by cases item <;> rfl

theorem objects_shape (item : QueueItem) : item.shape.objects = item.objects := by cases item <;> rfl

theorem shape_unrevised (item : QueueItem) : item.unrevised.shape = item.shape := by cases item <;> rfl

@[simp]
theorem unrevised_withNewRevision (isObject : SyncId → Bool) (revision : Revision) (item : QueueItem) :
    (item.withNewRevision isObject revision).unrevised = item.unrevised := by
  cases item with
  | update kind => cases kind <;> rfl
  | _ => rfl

@[simp]
theorem shape_replaceObjectId (oldId newId : SyncId) (item : QueueItem) :
    (item.replaceObjectId oldId newId).shape = item.shape := by cases item <;> rfl

/-- The uids under which the item waits for its response, the server id of an update if it is known. -/
def awaits (s : SyncQueue) : QueueItem → List ObjectUid
  | createObject info _ _ => [.clientId info.id]
  | createWorkflow info _ => [.clientId info.id]
  | bulkCreateGenericStringObjects _ objects => objects.map fun object => .clientId object.id
  | update _ _ id _ => ((s.tryServerId id).map .serverId).toList
  | updateWorkflow _ id _ => ((s.tryServerId id).map .serverId).toList
  | recordObjectAction .. => []

def request (s : SyncQueue) : QueueItem → Option Request
  | createObject info title model =>
    (s.resolveFolder info.initialFolderId).map fun folder => .createObject info title (.serialized model) folder
  | createWorkflow info model =>
    (s.resolveFolder info.initialFolderId).map fun folder => .createObject info none (.workflow model) folder
  | bulkCreateGenericStringObjects owner objects =>
    (objects.mapM fun object => s.resolveFolder object.initialFolderId).map fun folders =>
      .bulkCreateGenericStringObjects owner (objects.zip folders)
  | update kind model id revision => (s.tryServerId id).map fun objectId =>
      .updateObject (.serialized (some model)) objectId (if kind = .updateFolder then none else revision)
  | updateWorkflow model id revision => (s.tryServerId id).map fun objectId =>
      .updateObject (.workflow model) objectId revision
  | recordObjectAction id actionType timestamp data => (s.tryServerId id).map fun serverId =>
      .recordObjectAction serverId actionType timestamp data

end QueueItem

def shapes (entries : List (QueueItemId × QueueItem)) : List (QueueItemId × QueueItem) :=
  entries.map fun entry => (entry.1, entry.2.shape)

def unrevised (entries : List (QueueItemId × QueueItem)) : List (QueueItemId × QueueItem) :=
  entries.map fun entry => (entry.1, entry.2.unrevised)

theorem shapes_unrevised (entries : List (QueueItemId × QueueItem)) : shapes (unrevised entries) = shapes entries := by
  simp [shapes, unrevised, QueueItem.shape_unrevised]

theorem shapes_of_unrevised {entries entries' : List (QueueItemId × QueueItem)}
    (same : unrevised entries' = unrevised entries) : shapes entries' = shapes entries := by
  rw [← shapes_unrevised entries', same, shapes_unrevised]

theorem ids_shapes (entries : List (QueueItemId × QueueItem)) : ids (shapes entries) = ids entries := by
  simp [ids, shapes]

theorem ids_of_shapes {entries entries' : List (QueueItemId × QueueItem)} (same : shapes entries' = shapes entries) :
    ids entries' = ids entries := by
  rw [← ids_shapes entries', same, ids_shapes]

theorem mem_of_shapes {entries entries' : List (QueueItemId × QueueItem)} (same : shapes entries' = shapes entries)
    {entry : QueueItemId × QueueItem} (member : entry ∈ entries') :
    ∃ item, (entry.1, item) ∈ entries ∧ item.shape = entry.2.shape := by
  have here : (entry.1, entry.2.shape) ∈ shapes entries := same ▸ List.mem_map_of_mem member
  obtain ⟨other, member, equal⟩ := List.mem_map.mp here
  obtain ⟨sameId, sameShape⟩ := Prod.mk.inj equal
  exact ⟨other.2, sameId ▸ member, sameShape⟩

namespace SyncQueue

def awaitAll (self : SyncQueue) (id : QueueItemId) (uids : List ObjectUid) : SyncQueue :=
  uids.foldl (fun self uid => self.awaitResponse id uid) self

theorem awaitAll_eq (uids : List ObjectUid) :
    s.awaitAll id uids = { s with waitingResponse := (s.awaitAll id uids).waitingResponse } := by
  induction uids generalizing s with
  | nil => rfl
  | cons uid uids ih =>
    rw [awaitAll, foldl_cons]
    exact ih

theorem mem_awaitAll {uids : List ObjectUid} {uid : ObjectUid} {i : QueueItemId} :
    i ∈ (s.awaitAll id uids).waitingResponse uid ↔ i ∈ s.waitingResponse uid ∨ i = id ∧ uid ∈ uids := by
  induction uids generalizing s with
  | nil => simp [awaitAll]
  | cons first uids ih =>
    have step : i ∈ (s.awaitResponse id first).waitingResponse uid ↔ i ∈ s.waitingResponse uid ∨ i = id ∧ uid = first := by
      unfold awaitResponse
      dsimp only
      by_cases same : uid = first
      · rw [if_pos same, Finset.mem_insert]
        simp [same, or_comm]
      · rw [if_neg same]
        simp [same]
    rw [awaitAll, foldl_cons]
    rw [show (List.foldl _ _ _ : SyncQueue) = (s.awaitResponse id first).awaitAll id uids from rfl, ih, step, mem_cons]
    grind

/-- The queue with which `dequeue` goes on after an item that cannot be sent. -/
def passOver (self : SyncQueue) (entry : QueueItemId × QueueItem) : SyncQueue :=
  if entry.2.isUpdate then self.reportFailures handleDependencyFailure entry.1 (entry.2.failures self)
  else self.awaitAll entry.1 (entry.2.awaits self)

theorem dequeueItem_eq (dequeue : SyncQueue → SyncQueue) (entry : QueueItemId × QueueItem) :
    s.dequeueItem dequeue entry = (entry.2.request s).elim (dequeue (s.passOver entry))
      fun request => (s.awaitAll entry.1 (entry.2.awaits s)).spawn entry.1 request := by
  obtain ⟨id, item⟩ := entry
  cases item with
  | createObject info title model =>
    have same : (s.awaitResponse id (.clientId info.id)).resolveFolder info.initialFolderId =
      s.resolveFolder info.initialFolderId := by cases info.initialFolderId <;> rfl
    simp only [dequeueItem, createObject, QueueItem.request, same]
    cases s.resolveFolder info.initialFolderId <;> rfl
  | createWorkflow info model =>
    have same : (s.awaitResponse id (.clientId info.id)).resolveFolder info.initialFolderId =
      s.resolveFolder info.initialFolderId := by cases info.initialFolderId <;> rfl
    simp only [dequeueItem, createObject, QueueItem.request, same]
    cases s.resolveFolder info.initialFolderId <;> rfl
  | bulkCreateGenericStringObjects owner objects =>
    have all : objects.foldl (fun self data => self.awaitResponse id (.clientId data.id)) s =
        s.awaitAll id (objects.map fun object => .clientId object.id) := by rw [awaitAll, foldl_map]
    have same : (s.awaitAll id (objects.map fun object => .clientId object.id)).resolveFolder = s.resolveFolder := by
      rw [awaitAll_eq]
      funext folder
      cases folder <;> rfl
    simp only [dequeueItem, bulkCreate, QueueItem.request, all, same]
    cases objects.mapM fun object => s.resolveFolder object.initialFolderId <;> rfl
  | update kind model syncId revision =>
    simp only [dequeueItem, updateObject, QueueItem.request, QueueItem.awaits]
    cases s.tryServerId syncId <;> rfl
  | updateWorkflow model syncId revision =>
    simp only [dequeueItem, updateObject, QueueItem.request, QueueItem.awaits]
    cases s.tryServerId syncId <;> rfl
  | recordObjectAction syncId actionType timestamp data =>
    simp only [dequeueItem, recordObjectAction, QueueItem.request]
    cases s.tryServerId syncId <;> rfl

end SyncQueue

def SyncQueueEvent.uid : SyncQueueEvent → ObjectUid
  | objectCreationSuccessful _ clientId _ _ => .clientId clientId
  | objectUpdateSuccessful serverId _ => .serverId serverId
  | objectUpdateRejected id _ => id
  | objectCreationFailure (.uniqueKeyConflict id _) => id
  | objectCreationFailure (.denied _ clientId _) => .clientId clientId
  | objectCreationFailure (.other id _) => id
  | objectUpdateFailure id => id
  | reportObjectActionFailed uid _ => uid
  | reportObjectActionSucceeded uid _ _ => uid

def ResponseType.event (initiatedBy : InitiatedBy) : ResponseType → SyncQueueEvent
  | update uid (.success revisionAndEditor) => .objectUpdateSuccessful uid revisionAndEditor
  | update _ (.rejected object) => .objectUpdateRejected object.uid object
  | creation (.success clientId revisionAndEditor serverCreationInfo) =>
    .objectCreationSuccessful serverCreationInfo clientId revisionAndEditor initiatedBy
  | creation (.userFacingError message clientId) => .objectCreationFailure (.denied message clientId initiatedBy)
  | objectAction uid timestamp actionHistory => .reportObjectActionSucceeded (.serverId uid) timestamp actionHistory

def SyncQueueEvent.created : SyncQueueEvent → Option (ClientId × ServerId)
  | objectCreationSuccessful serverCreationInfo clientId _ _ => some (clientId, serverCreationInfo.serverId)
  | _ => none

namespace SyncQueue

/-- An item succeeds, and nothing depends on it any more. -/
structure Settled (id : QueueItemId) (event : SyncQueueEvent) (s s' : SyncQueue) : Prop where
  same : s' = { s with
    queue := s'.queue
    waitingResponse := s'.waitingResponse
    clientIdToServer := s'.clientIdToServer
    serverIdToClientHash := s'.serverIdToClientHash
    queueDependencies := fun i => (s.queueDependencies i).map (·.erase id)
    events := s.events ++ [⟨id, event⟩] }
  unrevised : unrevised s'.queue = unrevised s.queue
  waiting : ∀ uid i, i ∈ s'.waitingResponse uid ↔ i ∈ s.waitingResponse uid ∧ ¬ (i = id ∧ uid = event.uid)
  clientIdToServer : ∀ clientId, s'.clientIdToServer clientId =
    (event.created.bind fun created => if clientId = created.1 then some created.2 else none).or
      (s.clientIdToServer clientId)

theorem unrevised_updateItems (serverId : ServerId) (revision : Revision) :
    unrevised (s.updateItemsWithNewRevision serverId revision).queue = unrevised s.queue := by
  simp [Sync.unrevised, updateItemsWithNewRevision, Function.comp_def]

theorem settle_settled (responseType : ResponseType) (id : QueueItemId) (initiatedBy : InitiatedBy) :
    Settled id (responseType.event initiatedBy) s (s.settle responseType id initiatedBy) := by
  constructor
  case same =>
    cases responseType with
    | update uid result => cases result <;> rfl
    | creation result => cases result <;> rfl
    | objectAction => rfl
  case unrevised =>
    cases responseType with
    | update uid result =>
      cases result with
      | success revision => exact unrevised_updateItems uid revision.revision
      | rejected object => rfl
    | creation result =>
      cases result with
      | success clientId revision info => exact unrevised_updateItems info.serverId revision.revision
      | userFacingError message clientId => rfl
    | objectAction => rfl
  case waiting =>
    intro uid i
    cases responseType with
    | update uid result => cases result <;> exact mem_stopWaiting
    | creation result => cases result <;> exact mem_stopWaiting
    | objectAction => exact mem_stopWaiting
  case clientIdToServer =>
    intro clientId
    cases responseType with
    | update uid result => cases result <;> rfl
    | creation result =>
      cases result with
      | success other revision info =>
        by_cases same : clientId = other <;>
          simp [settle, emit, updateItemsWithNewRevision, handleDependencySuccess, stopWaiting, ResponseType.event,
            SyncQueueEvent.created, same]
      | userFacingError message clientId => rfl
    | objectAction => rfl

namespace Settled

variable {event : SyncQueueEvent}

theorem shapes (result : Settled id event s s') : shapes s'.queue = shapes s.queue := shapes_of_unrevised result.unrevised

theorem ids (result : Settled id event s s') : ids s'.queue = ids s.queue := ids_of_shapes result.shapes

theorem queueDependencies (result : Settled id event s s') (i : QueueItemId) :
    s'.queueDependencies i = (s.queueDependencies i).map (·.erase id) := by rw [result.same]

theorem events (result : Settled id event s s') : s'.events = s.events ++ [⟨id, event⟩] := by rw [result.same]

theorem own (result : Settled id event s s') : s'.eventsOf id = s.eventsOf id ++ [event] := by
  unfold eventsOf
  rw [result.events]
  simp

theorem others (result : Settled id event s s') {i : QueueItemId} (ne : i ≠ id) : s'.eventsOf i = s.eventsOf i := by
  unfold eventsOf
  rw [result.events]
  simp [Ne.symm ne]

end Settled

end SyncQueue

def Request.uids : Request → List ObjectUid
  | createObject info _ _ _ => [.clientId info.id]
  | bulkCreateGenericStringObjects _ objects => objects.map fun object => .clientId object.1.id
  | updateObject _ objectId _ => [.serverId objectId]
  | recordObjectAction serverId _ _ _ => [.serverId serverId]

def Request.creates : Request → Bool
  | createObject .. | bulkCreateGenericStringObjects .. => true
  | updateObject .. | recordObjectAction .. => false

def SyncQueueEvent.failed : SyncQueueEvent → Bool
  | objectCreationFailure _ | objectUpdateFailure _ | reportObjectActionFailed .. => true
  | _ => false

/-- The response names the objects of the request, and no others. -/
def Request.Named : Request → Response → Prop
  | updateObject _ objectId _, .updated (.rejected object) => object.uid = .serverId objectId
  | bulkCreateGenericStringObjects _ objects, .bulkCreated (.success createdObjects) =>
    (createdObjects.map CreatedCloudObject.clientId).Perm (objects.map fun object => object.1.id)
  | _, _ => True

instance (request : Request) (response : Response) : Decidable (request.Named response) := by
  unfold Request.Named
  split <;> infer_instance

def Response.isPersistent : Response → Bool
  | failed error => error.any Cause.isPersistent
  | _ => false

namespace SyncQueue

/-- What a callback does before it dequeues the next item. -/
inductive Answered (s : SyncQueue) (flight : Flight) : Response → SyncQueue → Prop where
  | created {info title model folder createdObject} (request : flight.request = .createObject info title model folder) :
    Answered s flight (.created (.success createdObject))
      ((s.updateDependenciesOnCreation flight.itemId info.id createdObject.serverId info.objectType).settle
        (creationSuccess info.id createdObject) flight.itemId info.initiatedBy)
  | denied {info title model folder message} (request : flight.request = .createObject info title model folder) :
    Answered s flight (.created (.userFacingError message))
      (s.settle (.creation (.userFacingError message info.id)) flight.itemId info.initiatedBy)
  | settled {response} (responseType : ResponseType) (other : flight.request.creates = false)
    (nothing : (responseType.event .user).created = none) (succeeds : (responseType.event .user).failed = false)
    (named : flight.request.Named response → flight.request.uids = [(responseType.event .user).uid]) :
    Answered s flight response (s.settle responseType flight.itemId .user)
  | reported {response} (reports : List (ObjectUid × SyncQueueEvent)) (uids : reports.map Prod.fst = flight.request.uids)
    (named : ∀ report ∈ reports, report.2.uid = report.1 ∧ report.2.created = none ∧ report.2.failed = true) :
    Answered s flight response (s.reportFailures handleDependencyFailure flight.itemId reports)

theorem answered (flight : Flight) {response : Response} (takes : flight.request.takes response)
    (several : ∀ createdObjects, response ≠ .bulkCreated (.success createdObjects)) :
    Answered s flight response (s.answer flight response) := by
  obtain ⟨id, request⟩ := flight
  cases request with
  | createObject info title model folder =>
    cases response with
    | created result =>
      cases result with
      | success createdObject => exact .created rfl
      | userFacingError message => exact .denied rfl
      | genericStringObjectUniqueKeyConflict =>
        exact .reported [(_, .objectCreationFailure (.uniqueKeyConflict (.clientId info.id) _))] rfl
          fun report member => by rw [List.mem_singleton.mp member]; exact ⟨rfl, rfl, rfl⟩
    | failed error =>
      exact .reported [(_, .objectCreationFailure (.other (.clientId info.id) _))] rfl
        fun report member => by rw [List.mem_singleton.mp member]; exact ⟨rfl, rfl, rfl⟩
    | bulkCreated | updated | recorded => cases takes
  | bulkCreateGenericStringObjects owner objects =>
    cases response with
    | bulkCreated result =>
      cases result with
      | success createdObjects => exact absurd rfl (several createdObjects)
      | genericStringObjectUniqueKeyConflict =>
        have all : s.answer ⟨id, .bulkCreateGenericStringObjects owner objects⟩
            (.bulkCreated .genericStringObjectUniqueKeyConflict) =
            s.reportFailures handleDependencyFailure id (objects.map fun object => (.clientId object.1.id,
              .objectCreationFailure (.uniqueKeyConflict (.clientId object.1.id) .user))) := by
          rw [reportFailures, foldl_map]
          rfl
        rw [all]
        exact .reported _ (by simp [Request.uids, Function.comp_def]) fun report member => by
          obtain ⟨object, -, rfl⟩ := List.mem_map.mp member
          exact ⟨rfl, rfl, rfl⟩
    | failed error =>
      have all : s.answer ⟨id, .bulkCreateGenericStringObjects owner objects⟩ (.failed error) =
          s.reportFailures handleDependencyFailure id (objects.map fun object => (.clientId object.1.id,
            .objectCreationFailure (.other (.clientId object.1.id) .user))) := by
        rw [reportFailures, foldl_map]
        rfl
      rw [all]
      exact .reported _ (by simp [Request.uids, Function.comp_def]) fun report member => by
        obtain ⟨object, -, rfl⟩ := List.mem_map.mp member
        exact ⟨rfl, rfl, rfl⟩
    | created | updated | recorded => cases takes
  | updateObject model objectId revision =>
    cases response with
    | updated result =>
      cases result with
      | success revision =>
        exact .settled (.update objectId (.success revision)) rfl rfl rfl fun _ => rfl
      | rejected object =>
        exact .settled (.update objectId (.rejected object)) rfl rfl rfl fun named =>
          congrArg (fun uid => [uid]) (show object.uid = .serverId objectId from named).symm
    | failed error =>
      exact .reported [(_, .objectUpdateFailure (.serverId objectId))] rfl
        fun report member => by rw [List.mem_singleton.mp member]; exact ⟨rfl, rfl, rfl⟩
    | created | bulkCreated | recorded => cases takes
  | recordObjectAction serverId actionType timestamp data =>
    cases response with
    | recorded actionHistory =>
      exact .settled (.objectAction serverId timestamp actionHistory) rfl rfl rfl fun _ => rfl
    | failed error =>
      exact .reported [(_, .reportObjectActionFailed (.serverId serverId) timestamp)] rfl
        fun report member => by rw [List.mem_singleton.mp member]; exact ⟨rfl, rfl, rfl⟩
    | created | bulkCreated | updated => cases takes

theorem respond_cases (s : SyncQueue) (id : QueueItemId) (response : Response) : s.respond id response = s ∨
    ∃ flight, s.flights.find? (fun flight => flight.itemId = id ∧ flight.request.takes response) = some flight ∧
      flight ∈ s.flights ∧ flight.itemId = id ∧
      ((∃ owner objects createdObjects, flight.request = .bulkCreateGenericStringObjects owner objects ∧
          response = .bulkCreated (.success createdObjects) ∧
          s.respond id response = (s.land flight).createdObjects id createdObjects) ∨
        Answered (s.land flight) flight response ((s.land flight).answer flight response) ∧
          (∀ createdObjects, response ≠ .bulkCreated (.success createdObjects)) ∧
          s.respond id response = if response.isPersistent then (s.land flight).answer flight response
            else ((s.land flight).answer flight response).dequeue) := by
  cases found : s.flights.find? (fun flight => flight.itemId = id ∧ flight.request.takes response) with
  | none => exact .inl (by rw [respond, found])
  | some flight =>
    have holds := List.find?_some found
    obtain ⟨rfl, takes⟩ := of_decide_eq_true holds
    refine .inr ⟨flight, rfl, mem_of_find?_eq_some found, rfl, ?_⟩
    have responds : s.respond flight.itemId response = (s.land flight).callback flight response := by
      rw [respond, found]
    by_cases several : ∃ createdObjects, response = .bulkCreated (.success createdObjects)
    · obtain ⟨createdObjects, rfl⟩ := several
      left
      cases request : flight.request with
      | bulkCreateGenericStringObjects owner objects => exact ⟨owner, objects, createdObjects, rfl, rfl, responds⟩
      | createObject | updateObject | recordObjectAction => rw [request] at takes; cases takes
    · have several' : ∀ createdObjects, response ≠ .bulkCreated (.success createdObjects) :=
        fun createdObjects same => several ⟨createdObjects, same⟩
      refine .inr ⟨answered flight takes several', several', responds.trans ?_⟩
      cases response with
      | bulkCreated result =>
        cases result with
        | success createdObjects => exact absurd rfl (several' createdObjects)
        | genericStringObjectUniqueKeyConflict => rfl
      | created | updated | recorded | failed => rfl

end SyncQueue

end Warp.Sync
