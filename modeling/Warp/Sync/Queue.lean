import Mathlib.Tactic

namespace Warp.Sync

structure ClientId where
  uuid : BitVec 128
deriving DecidableEq

structure ServerId where
  chars : Vector Char 22
deriving DecidableEq

inductive SyncId where
  | clientId (id : ClientId)
  | serverId (id : ServerId)
deriving DecidableEq

/-- A uid is `Client-` with a UUID of 36 characters, or the 22 characters of a server id: it is the id again. -/
abbrev ObjectUid := SyncId

inductive JsonObjectType where
  | preference | envVarCollection | workflowEnum | aiFact | mcpServer | aiExecutionProfile | templatableMcpServer
  | cloudEnvironment | scheduledAmbientAgent | cloudAgentConfig
deriving DecidableEq

inductive ObjectType where
  | notebook | workflow | folder
  | genericStringObject (format : JsonObjectType)
deriving DecidableEq

inductive Owner where
  | user (userUid : String)
  | team (teamUid : ServerId)
deriving DecidableEq

inductive CloudObjectEventEntrypoint where
  | teamSettings | resourceCenter | universalSearch | managementUi | blocklist | importModal | onboarding | unknown
deriving DecidableEq

inductive InitiatedBy where
  | user | system
deriving DecidableEq

abbrev Revision := Int

structure RevisionAndLastEditor where
  revision : Revision
  lastEditorUid : Option String
deriving DecidableEq

structure GenericStringObjectUniqueKey where
  key : String
deriving DecidableEq

structure SerializedModel where
  text : String
deriving DecidableEq

inductive ArgumentType where
  | text
  | enum (enumId : SyncId)
deriving DecidableEq

structure Argument where
  name : String
  argType : ArgumentType
deriving DecidableEq

inductive Workflow where
  | agentMode (name query : String) (arguments : List Argument)
  | command (name command : String) (arguments : List Argument) (environmentVariables : Option SyncId)
deriving DecidableEq

namespace Workflow

def arguments : Workflow → List Argument
  | agentMode _ _ arguments => arguments
  | command _ _ arguments _ => arguments

def getEnumIds (self : Workflow) : List SyncId :=
  self.arguments.filterMap fun arg =>
    match arg.argType with
    | .enum enumId => some enumId
    | .text => none

def defaultEnvVars : Workflow → Option SyncId
  | agentMode .. => none
  | command _ _ _ environmentVariables => environmentVariables

def objectIds (self : Workflow) : List SyncId := self.getEnumIds ++ self.defaultEnvVars.toList

end Workflow

def ArgumentType.replaceObjectId (oldId newId : SyncId) : ArgumentType → ArgumentType
  | .enum enumId => .enum (if enumId = oldId then newId else enumId)
  | .text => .text

def Argument.replaceObjectId (oldId newId : SyncId) (arg : Argument) : Argument :=
  { arg with argType := arg.argType.replaceObjectId oldId newId }

def Workflow.replaceObjectId (oldId newId : SyncId) : Workflow → Workflow
  | agentMode name query arguments => agentMode name query (arguments.map (Argument.replaceObjectId oldId newId))
  | command name text arguments environmentVariables =>
    command name text (arguments.map (Argument.replaceObjectId oldId newId))
      (if environmentVariables = some oldId then some newId else environmentVariables)

structure CreateInfo where
  objectType : ObjectType
  owner : Owner
  id : ClientId
  initialFolderId : Option SyncId
  entrypoint : CloudObjectEventEntrypoint
  initiatedBy : InitiatedBy
deriving DecidableEq

structure GenericStringObjectToCreate where
  id : ClientId
  format : JsonObjectType
  serializedModel : SerializedModel
  initialFolderId : Option SyncId
  entrypoint : CloudObjectEventEntrypoint
  uniquenessKey : Option GenericStringObjectUniqueKey
  initiatedBy : InitiatedBy
deriving DecidableEq

inductive UpdateKind where
  | updateNotebook | updateFolder | updateCloudPreferences | updateEnvVarCollection | updateWorkflowEnum | updateAIFact
  | updateMCPServer | updateAIExecutionProfile | updateTemplatableMCPServer | updateCloudEnvironment
  | updateScheduledAmbientAgent | updateCloudAgentConfig
deriving DecidableEq

inductive ObjectActionType where
  | execute
deriving DecidableEq

inductive QueueItem where
  | createObject (info : CreateInfo) (title : Option String) (serializedModel : Option SerializedModel)
  | createWorkflow (info : CreateInfo) (model : Workflow)
  | bulkCreateGenericStringObjects (owner : Owner) (objects : List GenericStringObjectToCreate)
  | update (kind : UpdateKind) (model : SerializedModel) (id : SyncId) (revision : Option Revision)
  | updateWorkflow (model : Workflow) (id : SyncId) (revision : Option Revision)
  | recordObjectAction (id : SyncId) (actionType : ObjectActionType) (actionTimestamp : Int) (data : Option String)
deriving DecidableEq

abbrev QueueItemId := ℕ

structure ServerCreationInfo where
  serverId : ServerId
  creatorUid : Option String
deriving DecidableEq

structure CreatedCloudObject where
  clientId : ClientId
  revisionAndEditor : RevisionAndLastEditor
  serverId : ServerId
  creatorUid : Option String
deriving DecidableEq

structure ServerCloudObject where
  uid : ObjectUid
  revision : Revision
deriving DecidableEq

structure ObjectActionHistory where
  uid : ObjectUid
deriving DecidableEq

inductive CreateCloudObjectResult where
  | success (createdCloudObject : CreatedCloudObject)
  | userFacingError (message : String)
  | genericStringObjectUniqueKeyConflict
deriving DecidableEq

inductive BulkCreateCloudObjectResult where
  | success (createdCloudObjects : List CreatedCloudObject)
  | genericStringObjectUniqueKeyConflict
deriving DecidableEq

inductive UpdateCloudObjectResult where
  | success (revisionAndEditor : RevisionAndLastEditor)
  | rejected (object : ServerCloudObject)
deriving DecidableEq

inductive GraphQLError where
  | requestError
  | stagingAccessBlocked
  | httpError (status : ℕ)
  | responseError
deriving DecidableEq

inductive Cause where
  | reqwest (isConnect : Bool)
  | userAuthentication
  | graphQL (error : GraphQLError)
  | other
deriving DecidableEq

/-- A cause for which other items are expected to fail as well. -/
def Cause.isPersistent : Cause → Bool
  | reqwest isConnect => isConnect
  | userAuthentication => true
  | graphQL .stagingAccessBlocked => true
  | graphQL (.httpError status) => status = 401 ∨ status = 403
  | graphQL _ => false
  | other => false

inductive Response where
  | created (result : CreateCloudObjectResult)
  | bulkCreated (result : BulkCreateCloudObjectResult)
  | updated (result : UpdateCloudObjectResult)
  | recorded (actionHistory : ObjectActionHistory)
  | failed (error : List Cause)
deriving DecidableEq

inductive Payload where
  | serialized (model : Option SerializedModel)
  | workflow (model : Workflow)
deriving DecidableEq

inductive Request where
  | createObject (info : CreateInfo) (title : Option String) (model : Payload) (initialFolderId : Option ServerId)
  | bulkCreateGenericStringObjects (owner : Owner) (objects : List (GenericStringObjectToCreate × Option ServerId))
  | updateObject (model : Payload) (objectId : ServerId) (revision : Option Revision)
  | recordObjectAction (serverId : ServerId) (actionType : ObjectActionType) (actionTimestamp : Int) (data : Option String)
deriving DecidableEq

structure Flight where
  itemId : QueueItemId
  request : Request
deriving DecidableEq

inductive CreationFailureReason where
  | uniqueKeyConflict (id : ObjectUid) (initiatedBy : InitiatedBy)
  | denied (message : String) (clientId : ClientId) (initiatedBy : InitiatedBy)
  | other (id : ObjectUid) (initiatedBy : InitiatedBy)
deriving DecidableEq

inductive SyncQueueEvent where
  | objectCreationSuccessful (serverCreationInfo : ServerCreationInfo) (clientId : ClientId)
      (revisionAndEditor : RevisionAndLastEditor) (initiatedBy : InitiatedBy)
  | objectUpdateSuccessful (serverId : ServerId) (revisionAndEditor : RevisionAndLastEditor)
  | objectUpdateRejected (id : ObjectUid) (object : ServerCloudObject)
  | objectCreationFailure (reason : CreationFailureReason)
  | objectUpdateFailure (id : SyncId)
  | reportObjectActionFailed (uid : ObjectUid) (actionTimestamp : Int)
  | reportObjectActionSucceeded (uid : ObjectUid) (actionTimestamp : Int) (actionHistory : ObjectActionHistory)
deriving DecidableEq

structure Emitted where
  itemId : QueueItemId
  event : SyncQueueEvent
deriving DecidableEq

structure SyncQueue where
  queue : List (QueueItemId × QueueItem)
  -- A uid without an entry has the empty set.
  waitingResponse : ObjectUid → Finset QueueItemId
  clientIdToServer : ClientId → Option ServerId
  serverIdToClientHash : ServerId → Option ClientId
  shouldDequeue : Bool
  queueDependencies : QueueItemId → Option (Finset QueueItemId)
  nextId : QueueItemId
  -- What the context was given: the requests without a final response, all requests, and the events.
  flights : List Flight
  requests : List Flight
  events : List Emitted
  /-- The items enqueued since the last `clear`. -/
  enqueued : List (QueueItemId × QueueItem)

namespace QueueItem

/-- Whether the item creates or updates the object. Actions leave an object's content and metadata alone. -/
def worksOn (item : QueueItem) (itemId : ObjectUid) : Bool :=
  match item with
  | createObject info _ _ => SyncId.clientId info.id = itemId
  | createWorkflow info _ => SyncId.clientId info.id = itemId
  | bulkCreateGenericStringObjects _ objects => objects.any fun data => SyncId.clientId data.id = itemId
  | update _ _ id _ => id = itemId
  | updateWorkflow _ id _ => id = itemId
  | recordObjectAction .. => false

end QueueItem

/-- The updates that have a case of their own in `add_inferred_dependencies`. -/
def UpdateKind.infersDependencies : UpdateKind → Bool
  | updateNotebook | updateFolder | updateCloudPreferences | updateEnvVarCollection | updateWorkflowEnum
  | updateCloudEnvironment | updateScheduledAmbientAgent | updateCloudAgentConfig => true
  | updateAIFact | updateMCPServer | updateAIExecutionProfile | updateTemplatableMCPServer => false

namespace SyncQueue

def empty : SyncQueue where
  queue := []
  waitingResponse _ := ∅
  clientIdToServer _ := none
  serverIdToClientHash _ := none
  shouldDequeue := false
  queueDependencies _ := none
  nextId := 0
  flights := []
  requests := []
  events := []
  enqueued := []

def removeIdFromQueue (self : SyncQueue) (removeId : QueueItemId) : SyncQueue :=
  { self with queue := self.queue.filter fun entry => entry.1 ≠ removeId }

def setDependencies (self : SyncQueue) (itemId : QueueItemId) (dependencies : Option (Finset QueueItemId)) : SyncQueue :=
  { self with queueDependencies := fun id => if id = itemId then dependencies else self.queueDependencies id }

def awaitResponse (self : SyncQueue) (itemId : QueueItemId) (uid : ObjectUid) : SyncQueue :=
  { self with waitingResponse := fun other =>
      if other = uid then insert itemId (self.waitingResponse other) else self.waitingResponse other }

def stopWaiting (self : SyncQueue) (itemId : QueueItemId) (uid : ObjectUid) : SyncQueue :=
  { self with waitingResponse := fun other =>
      if other = uid then (self.waitingResponse other).erase itemId else self.waitingResponse other }

def emit (self : SyncQueue) (itemId : QueueItemId) (event : SyncQueueEvent) : SyncQueue :=
  { self with events := self.events ++ [⟨itemId, event⟩] }

/-- The future with its callback. A failure with retries left only logs, so only final results are modelled. -/
def spawn (self : SyncQueue) (itemId : QueueItemId) (request : Request) : SyncQueue :=
  { self with flights := self.flights ++ [⟨itemId, request⟩], requests := self.requests ++ [⟨itemId, request⟩] }

def tryServerId (self : SyncQueue) : SyncId → Option ServerId
  | .clientId clientId => self.clientIdToServer clientId
  | .serverId serverId => some serverId

def getItemsWithObjectId (self : SyncQueue) (itemId : ObjectUid) : Finset QueueItemId :=
  ((self.queue.filter fun entry => entry.2.worksOn itemId).map Prod.fst).toFinset ∪ self.waitingResponse itemId

def convertedId (self : SyncQueue) : SyncId → Option ObjectUid
  | .clientId clientId => (self.clientIdToServer clientId).map .serverId
  | .serverId serverId => (self.serverIdToClientHash serverId).map .clientId

def getUpdateDependencies (self : SyncQueue) (id : SyncId) : Finset QueueItemId :=
  match self.convertedId id with
  | some associatedId => self.getItemsWithObjectId id ∪ self.getItemsWithObjectId associatedId
  | none => self.getItemsWithObjectId id

def dependentObjects (self : SyncQueue) (queueItemId : QueueItemId) : List (QueueItemId × QueueItem) :=
  self.queue.filter fun entry => (self.queueDependencies entry.1).any (queueItemId ∈ ·)

section Failure

-- The failure handlers call `handle_dependency_failure`, which calls them: they take it as `cascade`.
variable (cascade : QueueItemId → SyncQueue → SyncQueue)

def creationFailure (self : SyncQueue) (id : ObjectUid) (queueItemId : QueueItemId) : SyncQueue :=
  cascade queueItemId (self.stopWaiting queueItemId id)

def creationFailureResponse (self : SyncQueue) (id : ObjectUid) (queueItemId : QueueItemId) (initiatedBy : InitiatedBy) :
    SyncQueue :=
  (self.creationFailure cascade id queueItemId).emit queueItemId (.objectCreationFailure (.other id initiatedBy))

def uniqueKeyCreationFailureResponse (self : SyncQueue) (id : ObjectUid) (queueItemId : QueueItemId)
    (initiatedBy : InitiatedBy) : SyncQueue :=
  (self.creationFailure cascade id queueItemId).emit queueItemId
    (.objectCreationFailure (.uniqueKeyConflict id initiatedBy))

def updatedSyncId (self : SyncQueue) (id : SyncId) : SyncId := (self.tryServerId id).elim id .serverId

def updateFailureResponse (self : SyncQueue) (id : SyncId) (queueItemId : QueueItemId) : SyncQueue :=
  (cascade queueItemId (self.stopWaiting queueItemId (self.updatedSyncId id))).emit queueItemId
    (.objectUpdateFailure (self.updatedSyncId id))

def objectActionFailureResponse (self : SyncQueue) (uid : ObjectUid) (timestamp : Int) (queueItemId : QueueItemId) :
    SyncQueue :=
  (cascade queueItemId (self.stopWaiting queueItemId uid)).emit queueItemId (.reportObjectActionFailed uid timestamp)

def failDependent (self : SyncQueue) (entry : QueueItemId × QueueItem) : SyncQueue :=
  -- Chains of dependencies reach an item more than once: only the first time fails it.
  if ((self.removeIdFromQueue entry.1).queueDependencies entry.1).isNone then self.removeIdFromQueue entry.1
  else
    let self := (self.removeIdFromQueue entry.1).setDependencies entry.1 none
    match entry.2 with
    | .createObject info _ _ => self.creationFailureResponse cascade (.clientId info.id) entry.1 info.initiatedBy
    | .createWorkflow info _ => self.creationFailureResponse cascade (.clientId info.id) entry.1 info.initiatedBy
    | .bulkCreateGenericStringObjects _ objects => objects.foldl (fun self object =>
        self.creationFailureResponse cascade (.clientId object.id) entry.1 object.initiatedBy) self
    | .update _ _ id _ => self.updateFailureResponse cascade id entry.1
    | .updateWorkflow _ id _ => self.updateFailureResponse cascade id entry.1
    | .recordObjectAction id _ timestamp _ => self.objectActionFailureResponse cascade id timestamp entry.1

end Failure

/-- `handle_dependency_failure`, a level of the recursion for each unit of fuel. -/
def failDependents : ℕ → QueueItemId → SyncQueue → SyncQueue
  | 0, _, self => self
  | fuel + 1, queueItemId, self =>
    (self.dependentObjects queueItemId).foldl (failDependent fun id self => failDependents fuel id self) self

/-- Each level takes an item from the queue, so its length is enough fuel. -/
def handleDependencyFailure (queueItemId : QueueItemId) (self : SyncQueue) : SyncQueue :=
  failDependents self.queue.length queueItemId self

def handleCreationFailureResponse : SyncQueue → ObjectUid → QueueItemId → InitiatedBy → SyncQueue :=
  creationFailureResponse handleDependencyFailure

def handleUniqueKeyCreationFailureResponse : SyncQueue → ObjectUid → QueueItemId → InitiatedBy → SyncQueue :=
  uniqueKeyCreationFailureResponse handleDependencyFailure

def handleUpdateFailureResponse : SyncQueue → SyncId → QueueItemId → SyncQueue :=
  updateFailureResponse handleDependencyFailure

def handleObjectActionFailureResponse : SyncQueue → ObjectUid → Int → QueueItemId → SyncQueue :=
  objectActionFailureResponse handleDependencyFailure

def handleDependencySuccess (self : SyncQueue) (itemId : QueueItemId) : SyncQueue :=
  { self with queueDependencies := fun id => (self.queueDependencies id).map (·.erase itemId) }

def resolveObjects (self : SyncQueue) : List SyncId → Workflow → Finset QueueItemId → Workflow × Option (Finset QueueItemId)
  | [], model, dependencies => (model, some dependencies)
  | id :: ids, model, dependencies =>
    match self.tryServerId id with
    | some serverId => self.resolveObjects ids (model.replaceObjectId id (.serverId serverId)) dependencies
    | none =>
      if self.getItemsWithObjectId id = ∅ then (model, none)
      else self.resolveObjects ids model (dependencies ∪ self.getItemsWithObjectId id)

def getWorkflowObjectDependencies (self : SyncQueue) (model : Workflow) (workflowId : SyncId) (itemId : QueueItemId) :
    SyncQueue × Workflow × Option (Finset QueueItemId) :=
  match self.resolveObjects model.objectIds model ∅ with
  | (model, some dependencies) => (self, model, some dependencies)
  | (model, none) => (self.handleCreationFailureResponse workflowId itemId .user, model, none)

/-- The queue and the item, before its dependencies are recorded, and these. -/
def inferDependencies (self : SyncQueue) (item : QueueItem) (itemId : QueueItemId) :
    SyncQueue × QueueItem × Finset QueueItemId :=
  match item with
  | .update kind _ id _ => (self, item, if kind.infersDependencies then self.getUpdateDependencies id else ∅)
  | .updateWorkflow model id revision =>
    match self.getWorkflowObjectDependencies model id itemId with
    | (self', model, some dependencies) =>
      (self', .updateWorkflow model id revision, self.getUpdateDependencies id ∪ dependencies)
    | (self', model, none) =>
      (self'.handleUpdateFailureResponse id itemId, .updateWorkflow model id revision, self.getUpdateDependencies id)
  | .createWorkflow info model =>
    match self.getWorkflowObjectDependencies model (.clientId info.id) itemId with
    | (self', model, some dependencies) => (self', .createWorkflow info model, dependencies)
    | (self', model, none) =>
      (self'.handleCreationFailureResponse (.clientId info.id) itemId info.initiatedBy, .createWorkflow info model, ∅)
  | .createObject .. | .bulkCreateGenericStringObjects .. | .recordObjectAction .. => (self, item, ∅)

def addInferredDependencies (self : SyncQueue) (item : QueueItem) (itemId : QueueItemId) : SyncQueue × QueueItem :=
  let (self, item, dependencies) := self.inferDependencies item itemId
  (self.setDependencies itemId (some (dependencies.erase itemId)), item)

def initializeQueueDependencies (self : SyncQueue) : SyncQueue :=
  let (self, queue) := self.queue.foldl (fun (self, queue) (itemId, item) =>
    let (self, item) := self.addInferredDependencies item itemId
    (self, queue ++ [(itemId, item)])) (self, [])
  { self with queue := queue }

def loaded (queueItems : List QueueItem) : SyncQueue :=
  let entries := queueItems.zipIdx.map Prod.swap
  { empty with queue := entries, nextId := queueItems.length, enqueued := entries }

def new (queueItems : List QueueItem) : SyncQueue := (loaded queueItems).initializeQueueDependencies

section Dequeue

def resolveFolder (self : SyncQueue) : Option SyncId → Option (Option ServerId)
  | some syncId => (self.tryServerId syncId).map some
  | none => some none

/-- What `find` looks for: an item that depends on no other. -/
def isReady (self : SyncQueue) (entry : QueueItemId × QueueItem) : Bool := self.queueDependencies entry.1 = some ∅

-- An item that cannot be sent makes way for the next one.
variable (dequeue : SyncQueue → SyncQueue)

def createObject (self : SyncQueue) (info : CreateInfo) (title : Option String) (model : Payload)
    (queueItemId : QueueItemId) : SyncQueue :=
  let self := self.awaitResponse queueItemId (.clientId info.id)
  match self.resolveFolder info.initialFolderId with
  | some initialFolderId => self.spawn queueItemId (.createObject info title model initialFolderId)
  | none => dequeue self

def bulkCreate (self : SyncQueue) (owner : Owner) (objects : List GenericStringObjectToCreate) (queueItemId : QueueItemId) :
    SyncQueue :=
  let self := objects.foldl (fun self data => self.awaitResponse queueItemId (.clientId data.id)) self
  match objects.mapM fun object => self.resolveFolder object.initialFolderId with
  | some initialFolderIds => self.spawn queueItemId (.bulkCreateGenericStringObjects owner (objects.zip initialFolderIds))
  | none => dequeue self

def updateObject (self : SyncQueue) (model : Payload) (syncId : SyncId) (revision : Option Revision)
    (queueItemId : QueueItemId) : SyncQueue :=
  match self.tryServerId syncId with
  | some objectId => (self.awaitResponse queueItemId (.serverId objectId)).spawn queueItemId (.updateObject model objectId revision)
  | none => dequeue (self.handleUpdateFailureResponse syncId queueItemId)

def recordObjectAction (self : SyncQueue) (id : SyncId) (actionType : ObjectActionType) (actionTimestamp : Int)
    (data : Option String) (queueItemId : QueueItemId) : SyncQueue :=
  match self.tryServerId id with
  | some serverId => self.spawn queueItemId (.recordObjectAction serverId actionType actionTimestamp data)
  | none => dequeue self

def dequeueItem (self : SyncQueue) (entry : QueueItemId × QueueItem) : SyncQueue :=
  match entry.2 with
  | .createObject info title model => self.createObject dequeue info title (.serialized model) entry.1
  | .createWorkflow info model => self.createObject dequeue info none (.workflow model) entry.1
  | .bulkCreateGenericStringObjects owner objects => self.bulkCreate dequeue owner objects entry.1
  | .update kind model id revision =>
    self.updateObject dequeue (.serialized (some model)) id (if kind = .updateFolder then none else revision) entry.1
  | .updateWorkflow model id revision => self.updateObject dequeue (.workflow model) id revision entry.1
  | .recordObjectAction id actionType timestamp data =>
    self.recordObjectAction dequeue id actionType timestamp data entry.1

end Dequeue

def takeReady (self : SyncQueue) (entry : QueueItemId × QueueItem) : SyncQueue :=
  { self with queue := self.queue.eraseP self.isReady }.setDependencies entry.1 none

def dequeueUpTo : ℕ → SyncQueue → SyncQueue
  | 0, self => self
  | fuel + 1, self =>
    if self.shouldDequeue then
      match self.queue.find? self.isReady with
      | some entry => (self.takeReady entry).dequeueItem (fun self => dequeueUpTo fuel self) entry
      | none => self
    else self

/-- Each call takes an item from the queue, so its length is enough fuel. -/
def dequeue (self : SyncQueue) : SyncQueue := dequeueUpTo self.queue.length self

def startDequeueing (self : SyncQueue) : SyncQueue := { self with shouldDequeue := true }.dequeue

def stopDequeueing (self : SyncQueue) : SyncQueue := { self with shouldDequeue := false }

def clear (self : SyncQueue) : SyncQueue :=
  { self with
    queue := [], waitingResponse := fun _ => ∅, queueDependencies := fun _ => none, clientIdToServer := fun _ => none,
    serverIdToClientHash := fun _ => none, enqueued := [] }

def push (self : SyncQueue) (item : QueueItem) : SyncQueue :=
  let queueId := self.nextId
  let (self, queueItem) := self.addInferredDependencies item queueId
  { self with
    queue := self.queue ++ [(queueId, queueItem)], nextId := queueId + 1, enqueued := self.enqueued ++ [(queueId, item)] }

def enqueue (self : SyncQueue) (item : QueueItem) : SyncQueue := (self.push item).dequeue

end SyncQueue

def QueueItem.withNewRevision (isObject : SyncId → Bool) (newRevision : Revision) : QueueItem → QueueItem
  | .update .updateNotebook model id revision =>
    .update .updateNotebook model id (if isObject id then some newRevision else revision)
  | .updateWorkflow model id revision => .updateWorkflow model id (if isObject id then some newRevision else revision)
  | item => item

def QueueItem.replaceObjectId (oldId newId : SyncId) : QueueItem → QueueItem
  | .createWorkflow info model => .createWorkflow info (model.replaceObjectId oldId newId)
  | .updateWorkflow model id revision => .updateWorkflow (model.replaceObjectId oldId newId) id revision
  | item => item

inductive CreationResponseType where
  | success (clientId : ClientId) (revisionAndEditor : RevisionAndLastEditor) (serverCreationInfo : ServerCreationInfo)
  | userFacingError (message : String) (clientId : ClientId)

/-- A response with the `uid` it is handled under. The uid of a creation is that of its client id. -/
inductive ResponseType where
  | creation (creationResult : CreationResponseType)
  | update (uid : ServerId) (updateResult : UpdateCloudObjectResult)
  | objectAction (uid : ServerId) (actionTimestamp : Int) (actionHistory : ObjectActionHistory)

def Request.takes : Request → Response → Bool
  | .createObject .., .created _ => true
  | .bulkCreateGenericStringObjects .., .bulkCreated _ => true
  | .updateObject .., .updated _ => true
  | .recordObjectAction .., .recorded _ => true
  | _, .failed _ => true
  | _, _ => false

namespace SyncQueue

def updateItemsWithNewRevision (self : SyncQueue) (serverId : ServerId) (newRevision : Revision) : SyncQueue :=
  { self with queue := self.queue.map fun entry =>
      (entry.1, entry.2.withNewRevision (fun id => self.tryServerId id = some serverId) newRevision) }

/-- Only the workflows that depend on the item refer to the object. -/
def updateDependenciesOnCreation (self : SyncQueue) (queueItemId : QueueItemId) (clientId : ClientId)
    (serverId : ServerId) (objectType : ObjectType) : SyncQueue :=
  if objectType = .genericStringObject .workflowEnum ∨ objectType = .genericStringObject .envVarCollection then
    { self with queue := self.queue.map fun entry =>
        (entry.1, if (self.queueDependencies entry.1).any (queueItemId ∈ ·) then
          entry.2.replaceObjectId (.clientId clientId) (.serverId serverId) else entry.2) }
  else self

def settle (self : SyncQueue) (responseType : ResponseType) (queueItemId : QueueItemId) (initiatedBy : InitiatedBy) :
    SyncQueue :=
  match responseType with
  | .update uid (.success revisionAndEditor) =>
    (((self.stopWaiting queueItemId (.serverId uid)).handleDependencySuccess queueItemId).updateItemsWithNewRevision uid
      revisionAndEditor.revision).emit queueItemId (.objectUpdateSuccessful uid revisionAndEditor)
  | .update _ (.rejected object) =>
    ((self.emit queueItemId (.objectUpdateRejected object.uid object)).stopWaiting queueItemId
      object.uid).handleDependencySuccess queueItemId
  | .creation (.success clientId revisionAndEditor serverCreationInfo) =>
    let self := { self with
      clientIdToServer := fun id => if id = clientId then some serverCreationInfo.serverId else self.clientIdToServer id
      serverIdToClientHash := fun id =>
        if id = serverCreationInfo.serverId then some clientId else self.serverIdToClientHash id }
    (((self.stopWaiting queueItemId (.clientId clientId)).handleDependencySuccess queueItemId).updateItemsWithNewRevision
      serverCreationInfo.serverId revisionAndEditor.revision).emit queueItemId
        (.objectCreationSuccessful serverCreationInfo clientId revisionAndEditor initiatedBy)
  | .creation (.userFacingError message clientId) =>
    ((self.stopWaiting queueItemId (.clientId clientId)).handleDependencySuccess queueItemId).emit queueItemId
      (.objectCreationFailure (.denied message clientId initiatedBy))
  | .objectAction uid actionTimestamp actionHistory =>
    ((self.stopWaiting queueItemId (.serverId uid)).handleDependencySuccess queueItemId).emit queueItemId
      (.reportObjectActionSucceeded (.serverId uid) actionTimestamp actionHistory)

def handleSuccessResponse (self : SyncQueue) (responseType : ResponseType) (queueItemId : QueueItemId)
    (initiatedBy : InitiatedBy) : SyncQueue :=
  (self.settle responseType queueItemId initiatedBy).dequeue

def maybeDequeueOnError (self : SyncQueue) (error : List Cause) : SyncQueue :=
  if error.any Cause.isPersistent then self else self.dequeue

def creationSuccess (clientId : ClientId) (createdObject : CreatedCloudObject) : ResponseType :=
  .creation (.success clientId createdObject.revisionAndEditor ⟨createdObject.serverId, createdObject.creatorUid⟩)

/-- What the callback of a request does before it dequeues the next item, a bulk creation that succeeds apart. -/
def answer (self : SyncQueue) (flight : Flight) (response : Response) : SyncQueue :=
  match flight.request, response with
  | .createObject info _ _ _, .created (.success createdObject) =>
    (self.updateDependenciesOnCreation flight.itemId info.id createdObject.serverId info.objectType).settle
      (creationSuccess info.id createdObject) flight.itemId info.initiatedBy
  | .createObject info _ _ _, .created (.userFacingError message) =>
    self.settle (.creation (.userFacingError message info.id)) flight.itemId info.initiatedBy
  | .createObject info _ _ _, .created .genericStringObjectUniqueKeyConflict =>
    self.handleUniqueKeyCreationFailureResponse (.clientId info.id) flight.itemId info.initiatedBy
  | .createObject info _ _ _, .failed _ =>
    self.handleCreationFailureResponse (.clientId info.id) flight.itemId info.initiatedBy
  | .bulkCreateGenericStringObjects _ objects, .bulkCreated .genericStringObjectUniqueKeyConflict =>
    objects.foldl (fun self object =>
      self.handleUniqueKeyCreationFailureResponse (.clientId object.1.id) flight.itemId .user) self
  | .bulkCreateGenericStringObjects _ objects, .failed _ =>
    objects.foldl (fun self object =>
      self.handleCreationFailureResponse (.clientId object.1.id) flight.itemId .user) self
  | .updateObject _ objectId _, .updated result => self.settle (.update objectId result) flight.itemId .user
  | .updateObject _ objectId _, .failed _ => self.handleUpdateFailureResponse (.serverId objectId) flight.itemId
  | .recordObjectAction serverId _ actionTimestamp _, .recorded actionHistory =>
    self.settle (.objectAction serverId actionTimestamp actionHistory) flight.itemId .user
  | .recordObjectAction serverId _ actionTimestamp _, .failed _ =>
    self.handleObjectActionFailureResponse (.serverId serverId) actionTimestamp flight.itemId
  | _, _ => self

/-- The objects of a bulk creation, with a call of `dequeue` after each. -/
def createdObjects (self : SyncQueue) (queueItemId : QueueItemId) (createdCloudObjects : List CreatedCloudObject) :
    SyncQueue :=
  createdCloudObjects.foldl (fun self createdObject =>
    self.handleSuccessResponse (creationSuccess createdObject.clientId createdObject) queueItemId .user) self

def callback (self : SyncQueue) (flight : Flight) : Response → SyncQueue
  | .bulkCreated (.success createdCloudObjects) => self.createdObjects flight.itemId createdCloudObjects
  | .failed error => (self.answer flight (.failed error)).maybeDequeueOnError error
  | response => (self.answer flight response).dequeue

def land (self : SyncQueue) (flight : Flight) : SyncQueue := { self with flights := self.flights.erase flight }

def respond (self : SyncQueue) (itemId : QueueItemId) (response : Response) : SyncQueue :=
  match self.flights.find? fun flight => flight.itemId = itemId ∧ flight.request.takes response with
  | some flight => (self.land flight).callback flight response
  | none => self

end SyncQueue

inductive Step where
  | enqueue (item : QueueItem)
  | respond (itemId : QueueItemId) (response : Response)
  | startDequeueing
  | stopDequeueing
  | clear
deriving DecidableEq

namespace SyncQueue

def step (self : SyncQueue) : Step → SyncQueue
  | .enqueue item => self.enqueue item
  | .respond itemId response => self.respond itemId response
  | .startDequeueing => self.startDequeueing
  | .stopDequeueing => self.stopDequeueing
  | .clear => self.clear

def run (self : SyncQueue) (steps : List Step) : SyncQueue := steps.foldl step self

end SyncQueue

end Warp.Sync
