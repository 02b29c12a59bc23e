import Warp.CodeReview.DiffStateTracker
import Warp.Lib.Lines

namespace Warp.Remote.BufferSync

open CodeReview (ConnectionId)

structure SyncClock where
  serverVersion : ℕ
  clientVersion : ℕ
  deriving DecidableEq

namespace SyncClock

variable (self : SyncClock)

def new : SyncClock := ⟨0, 0⟩

def serverPushMatches (expectedClientVersion : ℕ) : Bool := self.clientVersion = expectedClientVersion

def clientEditMatches (expectedServerVersion : ℕ) : Bool := self.serverVersion = expectedServerVersion

end SyncClock

structure CharOffsetEdit where
  start : ℕ
  stop : ℕ
  text : Str
  deriving DecidableEq

/-- Offsets beyond the text are taken for its end. -/
def CharOffsetEdit.apply (self : CharOffsetEdit) (text : Str) : Str :=
  text.take (self.start - 1) ++ self.text ++ text.drop (self.stop - 1)

def applySequentially (edits : List CharOffsetEdit) (text : Str) : Str := edits.foldl (fun text edit => edit.apply text) text

def applyAtOnce (edits : List CharOffsetEdit) (text : Str) : Str := edits.foldr CharOffsetEdit.apply text

structure Buffer where
  text : Str
  version : ℕ
  deriving DecidableEq

namespace Buffer

variable (self : Buffer)

def maxCharoffset : ℕ := self.text.length + 1

def versionMatch (version : ℕ) : Bool := self.version = version

end Buffer

structure PendingDiffParse where
  edits : List CharOffsetEdit
  baseVersion : ℕ
  newVersion : ℕ
  deriving DecidableEq

structure ServerLocal where
  buffer : Buffer
  baseContentVersion : Option ℕ
  pendingDiffParse : Option PendingDiffParse
  syncClock : SyncClock
  deriving DecidableEq

structure Reload where
  task : ℕ
  expectedClientVersion : ℕ
  deriving DecidableEq

structure Write where
  task : ℕ
  version : ℕ
  deriving DecidableEq

inductive PendingBufferRequestKind where
  | openBuffer
  | saveBuffer
  | resolveConflict
  deriving DecidableEq

structure PendingBufferRequest where
  requestId : ℕ
  connectionId : ConnectionId
  kind : PendingBufferRequestKind
  deriving DecidableEq

inductive ClientMessage where
  | openBuffer (requestId : ℕ) (forceReload : Bool)
  | bufferEdit (expectedServerVersion newClientVersion : ℕ) (edits : List CharOffsetEdit)
  | saveBuffer (requestId : ℕ)
  | resolveConflict (requestId : ℕ) (acknowledgedServerVersion currentClientVersion : ℕ) (clientContent : Str)

structure OpenBufferSuccess where
  content : Str
  serverVersion : ℕ
  deriving DecidableEq

inductive ServerMessage where
  | openBufferResponse (requestId : ℕ) (result : Except Str OpenBufferSuccess)
  | bufferUpdatedPush (newServerVersion expectedClientVersion : ℕ) (edits : List CharOffsetEdit)
  | bufferConflictDetected
  | saveBufferResponse (requestId : ℕ) (result : Except Str Unit)
  | resolveConflictResponse (requestId : ℕ) (result : Except Str Unit)

inductive GlobalBufferModelEvent where
  | bufferLoaded
  | failedToLoad (error : Str)
  | bufferUpdatedFromFileEvent (success : Bool)
  | fileSaved
  | failedToSave (error : Str)
  | serverLocalBufferUpdated (edits : List CharOffsetEdit) (newServerVersion expectedClientVersion : ℕ)

abbrev Dispatch := List (ConnectionId × ServerMessage)

/-- The daemon with the buffer of one path: what it tracks of it, the version that the file model has for it, and the tasks
that run. -/
structure Daemon where
  state : Option ServerLocal
  connections : List ConnectionId
  pending : List PendingBufferRequest
  fileVersion : Option ℕ
  loading : Bool
  reloads : List Reload
  writes : List Write
  nextVersion : ℕ
  nextTask : ℕ

namespace Daemon

variable (self : Daemon)

def new : Daemon := ⟨none, [], [], none, false, [], [], 1, 0⟩

def ofKind (kind : PendingBufferRequestKind) : List PendingBufferRequest := self.pending.filter (·.kind = kind)

def pendingConnectionsForOpenBuffer : List ConnectionId := (self.ofKind .openBuffer).map (·.connectionId)

def takePendingByKind (kind : PendingBufferRequestKind) (message : ℕ → ServerMessage) : Dispatch × Daemon :=
  ((self.ofKind kind).map fun request => (request.connectionId, message request.requestId),
    { self with pending := self.pending.filter (·.kind ≠ kind) })

def openSuccess : Except Str OpenBufferSuccess :=
  match self.state with
  | none => .error "Buffer loaded but content or sync clock unavailable".toList
  | some state => .ok ⟨state.buffer.text, state.syncClock.serverVersion⟩

def takeSaves (result : Except Str Unit) : Dispatch × Daemon :=
  let (saves, self) := self.takePendingByKind .saveBuffer (.saveBufferResponse · result)
  let (resolves, self) := self.takePendingByKind .resolveConflict (.resolveConflictResponse · result)
  (saves ++ resolves, self)

def handleEvent : GlobalBufferModelEvent → Dispatch × Daemon
  | .bufferLoaded => self.takePendingByKind .openBuffer (.openBufferResponse · self.openSuccess)
  | .failedToLoad error =>
    self.takePendingByKind .openBuffer (.openBufferResponse · (.error ("Failed to load buffer: ".toList ++ error)))
  | .bufferUpdatedFromFileEvent success =>
    (if success then [] else self.connections.map (·, .bufferConflictDetected), self)
  | .fileSaved => self.takeSaves (.ok ())
  | .failedToSave error => self.takeSaves (.error error)
  -- Those that wait for the buffer to open get its content with the response.
  | .serverLocalBufferUpdated edits newServerVersion expectedClientVersion =>
    ((self.connections.filter (· ∉ self.pendingConnectionsForOpenBuffer)).map
      (·, .bufferUpdatedPush newServerVersion expectedClientVersion edits), self)

def withState (state : ServerLocal) : Daemon := { self with state := some state }

def loadFinished (result : Except Str Str) : Dispatch × Daemon :=
  if self.loading then
    let self := { self with loading := false }
    match result with
    | .error e => self.handleEvent (.failedToLoad e)
    | .ok content =>
      let version := self.nextVersion
      let self := { self with nextVersion := version + 1, fileVersion := some version }
      match self.state with
      | none => ([], self)
      | some state =>
        (self.withState { state with buffer := ⟨content, version⟩, baseContentVersion := some version }).handleEvent .bufferLoaded
  else ([], self)

def startBackgroundDiffParse (textDiff : Str → Str → List CharOffsetEdit) (state : ServerLocal) (content : Str)
    (baseVersion newVersion : ℕ) : Daemon :=
  self.withState { state with pendingDiffParse := some ⟨textDiff state.buffer.text content, baseVersion, newVersion⟩ }

/-- The file changed on the disk. A buffer with edits of a client is left as it is. -/
def fileUpdated (textDiff : Str → Str → List CharOffsetEdit) (content : Str) : Dispatch × Daemon :=
  match self.fileVersion with
  | none => ([], self)
  | some baseVersion =>
    let newVersion := self.nextVersion
    let self := { self with nextVersion := newVersion + 1, fileVersion := some newVersion }
    match self.state with
    | none => ([], self)
    | some state =>
      match state.baseContentVersion with
      | none => ([], self)
      | some internalBaseVersion =>
        if state.buffer.versionMatch baseVersion then
          ([], self.startBackgroundDiffParse textDiff state content baseVersion newVersion)
        else if state.buffer.versionMatch internalBaseVersion then
          ([], self.startBackgroundDiffParse textDiff state content state.buffer.version newVersion)
        else (self.withState { state with pendingDiffParse := none }).handleEvent (.bufferUpdatedFromFileEvent false)

def applyDiffResult : Dispatch × Daemon :=
  match self.state with
  | none => ([], self)
  | some state =>
    match state.pendingDiffParse with
    | none => ([], self)
    | some diff =>
      let state := { state with pendingDiffParse := none }
      if state.buffer.versionMatch diff.baseVersion then
        let state := { state with
          buffer := ⟨applyAtOnce diff.edits state.buffer.text, diff.newVersion⟩, baseContentVersion := some diff.newVersion }
        if diff.edits = [] then ([], self.withState state)
        else
          let newServerVersion := self.nextVersion
          ({ self with nextVersion := newServerVersion + 1 }.withState
              { state with syncClock := { state.syncClock with serverVersion := newServerVersion } }).handleEvent
            (.serverLocalBufferUpdated diff.edits newServerVersion state.syncClock.clientVersion)
      else (self.withState state).handleEvent (.bufferUpdatedFromFileEvent false)

def writeFinished (task : ℕ) (result : Except Str Unit) : Dispatch × Daemon :=
  match self.writes.find? (·.task = task) with
  | none => ([], self)
  | some write =>
    let self := { self with writes := self.writes.filter (·.task ≠ task) }
    match result with
    | .error e => self.handleEvent (.failedToSave e)
    | .ok _ =>
      let self : Daemon := { self with
        fileVersion := some write.version
        state := self.state.map fun state => { state with baseContentVersion := some write.version } }
      self.handleEvent .fileSaved

def forceReloadServerLocal (state : ServerLocal) : Daemon :=
  { self with
    reloads := self.reloads ++ [⟨self.nextTask, state.syncClock.clientVersion⟩]
    nextTask := self.nextTask + 1 }

def reloadFinished (task : ℕ) (result : Except Str Str) : Dispatch × Daemon :=
  match self.reloads.find? (·.task = task) with
  | none => ([], self)
  | some reload =>
    let self := { self with reloads := self.reloads.filter (·.task ≠ task) }
    match result, self.state with
    | .error e, _ => self.handleEvent (.failedToLoad e)
    | .ok _, none => self.handleEvent (.failedToLoad "File does not exist".toList)
    | .ok content, some state =>
      let newVersion := self.nextVersion
      let newServerVersion := newVersion + 1
      let self := { self with nextVersion := newServerVersion + 1, fileVersion := some newVersion }.withState
        { state with
          buffer := ⟨content, newVersion⟩
          baseContentVersion := some newVersion
          syncClock := ⟨newServerVersion, 0⟩ }
      let (updates, self) := self.handleEvent
        (.serverLocalBufferUpdated [⟨1, state.buffer.maxCharoffset, content⟩] newServerVersion reload.expectedClientVersion)
      let (responses, self) := self.handleEvent .bufferLoaded
      (updates ++ responses, self)

def addConnection (connId : ConnectionId) : Daemon := { self with connections := self.connections.insert connId }

def insertPending (requestId : ℕ) (connId : ConnectionId) (kind : PendingBufferRequestKind) : Daemon :=
  { self with pending := self.pending ++ [⟨requestId, connId, kind⟩] }

def loaded : Bool := (self.state.bind ServerLocal.baseContentVersion).isSome

/-- The buffer that is there, which is reported if it is loaded, or a new one that loads. -/
def openServerLocal : List GlobalBufferModelEvent × Daemon :=
  match self.state with
  | some _ => (if self.loaded then [.bufferLoaded] else [], self)
  | none =>
    ([], { self with
      state := some ⟨⟨[], self.nextVersion⟩, none, none, .new⟩
      fileVersion := none
      loading := true
      nextVersion := self.nextVersion + 1 })

def handleEvents (events : List GlobalBufferModelEvent) : Dispatch × Daemon :=
  events.foldl (fun (dispatch, self) event =>
    let (more, self) := handleEvent self event
    (dispatch ++ more, self)) ([], self)

def handleOpenBuffer (connId : ConnectionId) (requestId : ℕ) (forceReload : Bool) : Dispatch × Daemon :=
  match if forceReload then self.state else none with
  | some state => ([], ((self.addConnection connId).insertPending requestId connId .openBuffer).forceReloadServerLocal state)
  | none =>
    let (events, self) := self.openServerLocal
    let self := self.addConnection connId
    if self.loaded then
      let (dispatch, later) := self.handleEvents events
      ((connId, .openBufferResponse requestId self.openSuccess) :: dispatch, later)
    else (self.insertPending requestId connId .openBuffer).handleEvents events

/-- A batch that was made on another version is dropped. -/
def applyClientEdit (expectedServerVersion newClientVersion : ℕ) (edits : List CharOffsetEdit) : Daemon × Bool :=
  match self.state with
  | none => (self, false)
  | some state =>
    if state.syncClock.clientEditMatches expectedServerVersion then
      let version := self.nextVersion + edits.length
      ({ self with nextVersion := version + 1 }.withState
        { state with
          buffer := ⟨applySequentially edits state.buffer.text, version⟩
          syncClock := { state.syncClock with clientVersion := newClientVersion } }, true)
    else (self, false)

def saveServerLocal (state : ServerLocal) : Daemon :=
  { self with writes := self.writes ++ [⟨self.nextTask, state.buffer.version⟩], nextTask := self.nextTask + 1 }

def handleSaveBuffer (connId : ConnectionId) (requestId : ℕ) : Dispatch × Daemon :=
  match self.state with
  | none => ([(connId, .saveBufferResponse requestId (.error "Buffer not open".toList))], self)
  | some state => ([], (self.saveServerLocal state).insertPending requestId connId .saveBuffer)

/-- The buffer gets one new version and its base content version, which is the one of the save, another. -/
def resolveConflict (state : ServerLocal) (acknowledgedServerVersion currentClientVersion : ℕ)
    (clientContent : Str) : Daemon :=
  let newVersion := self.nextVersion
  let saveVersion := newVersion + 1
  let self : Daemon := { self with
    nextVersion := saveVersion + 1
    writes := self.writes ++ [⟨self.nextTask, saveVersion⟩]
    nextTask := self.nextTask + 1 }
  self.withState { state with
    buffer := ⟨clientContent, newVersion⟩
    baseContentVersion := some saveVersion
    syncClock := ⟨acknowledgedServerVersion, currentClientVersion⟩ }

def handleResolveConflict (connId : ConnectionId) (requestId : ℕ)
    (acknowledgedServerVersion currentClientVersion : ℕ) (clientContent : Str) : Dispatch × Daemon :=
  match self.state with
  | none => ([(connId, .resolveConflictResponse requestId (.error "Buffer not open".toList))], self)
  | some state =>
    ([], (self.resolveConflict state acknowledgedServerVersion currentClientVersion clientContent).insertPending requestId connId
      .resolveConflict)

def handleMessage (connId : ConnectionId) : ClientMessage → Dispatch × Daemon
  | .openBuffer requestId forceReload => self.handleOpenBuffer connId requestId forceReload
  | .bufferEdit expectedServerVersion newClientVersion edits =>
    ([], (self.applyClientEdit expectedServerVersion newClientVersion edits).1)
  | .saveBuffer requestId => self.handleSaveBuffer connId requestId
  | .resolveConflict requestId acknowledgedServerVersion currentClientVersion clientContent =>
    self.handleResolveConflict connId requestId acknowledgedServerVersion currentClientVersion clientContent

end Daemon

end Warp.Remote.BufferSync
