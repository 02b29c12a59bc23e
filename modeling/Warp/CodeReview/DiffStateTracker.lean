import Warp.Lib.HashMap
import Warp.Remote.Protocol

namespace Warp.CodeReview

open Remote (RequestId)

structure ConnectionId where
  uuid : ℕ
  deriving DecidableEq

inductive DiffMode where
  | head
  | mainBranch
  | otherBranch (branch : String)
  deriving DecidableEq

structure DiffModelKey where
  repoPath : String
  mode : DiffMode
  deriving DecidableEq

inductive DiffState where
  | notInRepository
  | loading
  | error (message : String)
  | loaded
  | disconnected
  deriving DecidableEq

section Model

-- diffs with the base content of their files, metadata, and the diff of one file
variable {δ μ φ : Type}

inductive InternalDiffState (δ : Type) where
  | notInRepository
  | loading
  | loaded (changes : Except String δ)

inductive DiffStateModelEvent (δ μ φ : Type) where
  | currentBranchChanged
  | newDiffsComputed (diffs : Option δ)
  | singleFileUpdated (path : String) (diff : Option φ)
  | metadataRefreshed (metadata : μ)

/-- A model on the server, where metadata refreshes are enabled. It begins by looking for its repository. -/
structure LocalDiffStateModel (δ μ : Type) where
  id : ℕ
  state : InternalDiffState δ
  metadata : Option μ
  repository : Bool
  detecting : Bool

namespace LocalDiffStateModel

variable (self : LocalDiffStateModel δ μ)

def new (id : ℕ) : LocalDiffStateModel δ μ := ⟨id, .notInRepository, none, false, true⟩

def get : DiffState :=
  match self.state with
  | .notInRepository => .notInRepository
  | .loading => .loading
  | .loaded (.ok _) => .loaded
  | .loaded (.error err) => .error err

def setActiveRepository : LocalDiffStateModel δ μ := { self with repository := true, detecting := false, state := .loading }

def noRepository : LocalDiffStateModel δ μ := { self with detecting := false }

def loadDiffsForCurrentRepo : LocalDiffStateModel δ μ := if self.repository then { self with state := .loading } else self

def handleUpdatedStateForRepo (changes : Except String δ) : LocalDiffStateModel δ μ := { self with state := .loaded changes }

end LocalDiffStateModel

end Model

structure PendingDiffStateResponse where
  requestId : RequestId
  connId : ConnectionId
  deriving DecidableEq

inductive SubscribeOutcome (μ : Type) where
  | respondWithSnapshot (key : DiffModelKey) (state : DiffState) (metadata : Option μ)
  | async

inductive DiffStateUpdate (δ μ φ : Type) where
  | snapshot (key : DiffModelKey) (state : DiffState) (metadata : Option μ) (diffs : Option δ)
    (subscribers : List (ConnectionId × Option RequestId))
  | metadataUpdate (key : DiffModelKey) (metadata : μ) (subscribers : List ConnectionId)
  | fileDelta (key : DiffModelKey) (path : String) (diff : Option φ) (metadata : Option μ) (subscribers : List ConnectionId)

/-- The handle of a model in `states` is the only one, so the model is kept here. -/
structure RemoteDiffStateManager (δ μ : Type) where
  states : HashMap DiffModelKey (LocalDiffStateModel δ μ)
  keyToConnections : HashMap DiffModelKey (HashSet ConnectionId)
  pendingResponses : HashMap DiffModelKey (List PendingDiffStateResponse)
  inProgress : HashMap RequestId ℕ

namespace RemoteDiffStateManager

variable {δ μ φ : Type} (self : RemoteDiffStateManager δ μ)

def new : RemoteDiffStateManager δ μ := ⟨.empty, .empty, .empty, .empty⟩

def getModel (key : DiffModelKey) : Option (LocalDiffStateModel δ μ) := self.states.get? key

def insertModel (key : DiffModelKey) (model : LocalDiffStateModel δ μ) : RemoteDiffStateManager δ μ :=
  { self with states := self.states.insert key model }

def removeModel (key : DiffModelKey) : RemoteDiffStateManager δ μ :=
  { self with
    states := self.states.remove key
    pendingResponses := self.pendingResponses.remove key
    keyToConnections := self.keyToConnections.remove key }

def readStateAndMetadata (key : DiffModelKey) : Option (DiffState × Option μ) :=
  (self.states.get? key).map fun model => (model.get, model.metadata)

def subscribeConnection (key : DiffModelKey) (connId : ConnectionId) : RemoteDiffStateManager δ μ :=
  { self with
    keyToConnections := self.keyToConnections.insert key (((self.keyToConnections.get? key).getD .empty).insert connId) }

def dropPending (key : DiffModelKey) (connId : ConnectionId) : RemoteDiffStateManager δ μ :=
  match self.pendingResponses.get? key with
  | some pending =>
    { self with pendingResponses := self.pendingResponses.insert key (pending.filter (·.connId ≠ connId)) }
  | none => self

def unsubscribeConnection (key : DiffModelKey) (connId : ConnectionId) : RemoteDiffStateManager δ μ :=
  let self := self.dropPending key connId
  match self.keyToConnections.get? key with
  | some connections =>
    let connections := connections.remove connId
    if connections.isEmpty then self.removeModel key
    else { self with keyToConnections := self.keyToConnections.insert key connections }
  | none => self

def removeConnection (connId : ConnectionId) : RemoteDiffStateManager δ μ :=
  let keys := (self.keyToConnections.entries.filter fun entry => connId ∈ entry.2).map Prod.fst
  keys.foldl (fun manager key => manager.unsubscribeConnection key connId) self

def subscribedConnections (key : DiffModelKey) : List ConnectionId :=
  ((self.keyToConnections.get? key).map HashSet.elems).getD []

def hasPendingResponses (key : DiffModelKey) : Bool :=
  match self.pendingResponses.get? key with
  | some pending => !pending.isEmpty
  | none => false

def addPendingResponse (key : DiffModelKey) (requestId : RequestId) (connId : ConnectionId) : RemoteDiffStateManager δ μ :=
  { self with pendingResponses := self.pendingResponses.extend key [⟨requestId, connId⟩] }

def drainPendingResponses (key : DiffModelKey) : List PendingDiffStateResponse × RemoteDiffStateManager δ μ :=
  (self.pendingResponses.values key, { self with pendingResponses := self.pendingResponses.remove key })

/-- A response that waits is sent to its request, and everyone else who is subscribed gets a push. -/
def subscribersOf (key : DiffModelKey) (pending : List PendingDiffStateResponse) : List (ConnectionId × Option RequestId) :=
  pending.map (fun p => (p.connId, some p.requestId)) ++
    ((self.subscribedConnections key).filter (· ∉ pending.map PendingDiffStateResponse.connId)).map (·, none)

def handleModelEvent (key : DiffModelKey) :
    DiffStateModelEvent δ μ φ → List (DiffStateUpdate δ μ φ) × RemoteDiffStateManager δ μ
  | .newDiffsComputed diffs =>
    match self.readStateAndMetadata key with
    | none => ([], self)
    | some (state, metadata) =>
      let (pending, drained) := self.drainPendingResponses key
      ([.snapshot key state metadata diffs (drained.subscribersOf key pending)], drained)
  | .metadataRefreshed metadata => ([.metadataUpdate key metadata (self.subscribedConnections key)], self)
  | .currentBranchChanged =>
    match (self.getModel key).bind LocalDiffStateModel.metadata with
    | none => ([], self)
    | some metadata => ([.metadataUpdate key metadata (self.subscribedConnections key)], self)
  | .singleFileUpdated path diff =>
    ([.fileDelta key path diff ((self.getModel key).bind LocalDiffStateModel.metadata) (self.subscribedConnections key)], self)

def resolvePendingResponses (key : DiffModelKey) (diffs : Option δ) :
    List (DiffStateUpdate δ μ φ) × RemoteDiffStateManager δ μ :=
  match self.readStateAndMetadata key with
  | none => ([], self)
  | some (state, metadata) =>
    let (pending, drained) := self.drainPendingResponses key
    ([.snapshot key state metadata diffs (pending.map fun p => (p.connId, some p.requestId))], drained)

def abortPendingResponse (requestId : RequestId) : RemoteDiffStateManager δ μ :=
  match self.pendingResponses.entries.find? fun entry => entry.2.any (·.requestId = requestId) with
  | some (key, pending) =>
    { self with pendingResponses := self.pendingResponses.insert key (pending.eraseP (·.requestId = requestId)) }
  | none => self

end RemoteDiffStateManager

structure Reload where
  future : ℕ
  requestId : RequestId
  key : DiffModelKey
  aborted : Bool
  models : ℕ
  deriving DecidableEq

structure Daemon (δ μ : Type) where
  diffStates : RemoteDiffStateManager δ μ
  reloads : List Reload
  nextModel : ℕ
  nextFuture : ℕ

namespace Daemon

variable {δ μ φ : Type} (self : Daemon δ μ)

def new : Daemon δ μ := ⟨.new, [], 0, 0⟩

def spawnContentReload (key : DiffModelKey) (requestId : RequestId) : Daemon δ μ :=
  { self with
    diffStates := { self.diffStates with inProgress := self.diffStates.inProgress.insert requestId self.nextFuture }
    reloads := self.reloads ++ [⟨self.nextFuture, requestId, key, false, self.nextModel⟩]
    nextFuture := self.nextFuture + 1 }

def subscribe (key : DiffModelKey) (requestId : RequestId) (connId : ConnectionId) : SubscribeOutcome μ × Daemon δ μ :=
  let self := { self with diffStates := self.diffStates.subscribeConnection key connId }
  let waits := { self with diffStates := self.diffStates.addPendingResponse key requestId connId }
  match self.diffStates.getModel key with
  | some model =>
    match model.get with
    | .loaded =>
      if self.diffStates.hasPendingResponses key then (.async, waits) else (.async, waits.spawnContentReload key requestId)
    | .error err => (.respondWithSnapshot key (.error err) model.metadata, self)
    | .notInRepository => (.respondWithSnapshot key .notInRepository model.metadata, self)
    | .loading | .disconnected => (.async, waits)
  | none =>
    let manager := self.diffStates.insertModel key (.new self.nextModel)
    (.async,
      { self with diffStates := manager.addPendingResponse key requestId connId, nextModel := self.nextModel + 1 })

/-- The future sees the abort when it is polled next. -/
def abortFuture (future : ℕ) : Daemon δ μ :=
  { self with
    reloads := self.reloads.map fun reload => if reload.future = future then { reload with aborted := true } else reload }

def handleAbort (requestId : RequestId) : Daemon δ μ :=
  match self.diffStates.inProgress.get? requestId with
  | some future =>
    Daemon.abortFuture
      { self with diffStates := { self.diffStates with inProgress := self.diffStates.inProgress.remove requestId } } future
  | none => { self with diffStates := self.diffStates.abortPendingResponse requestId }

def reloadEnded (reload : Reload) (diffs : Option δ) : List (DiffStateUpdate δ μ φ) × Daemon δ μ :=
  let manager := { self.diffStates with inProgress := self.diffStates.inProgress.remove reload.requestId }
  let (updates, manager) := manager.resolvePendingResponses reload.key diffs
  (updates, { self with diffStates := manager, reloads := self.reloads.filter (·.future ≠ reload.future) })

def modelStep (key : DiffModelKey) (change : LocalDiffStateModel δ μ → LocalDiffStateModel δ μ)
    (event : Option (DiffStateModelEvent δ μ φ)) : List (DiffStateUpdate δ μ φ) × Daemon δ μ :=
  match self.diffStates.getModel key with
  | none => ([], self)
  | some model =>
    let manager := self.diffStates.insertModel key (change model)
    match event with
    | none => ([], { self with diffStates := manager })
    | some event =>
      let (updates, manager) := manager.handleModelEvent key event
      (updates, { self with diffStates := manager })

end Daemon

end Warp.CodeReview
