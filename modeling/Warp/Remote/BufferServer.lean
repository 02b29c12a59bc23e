import Warp.Remote.ServerBufferTracker

namespace Warp.Remote

open CodeReview (ConnectionId)

structure ServerBuffer where
  text : Str
  serverVersion : ℕ
  loaded : Bool
  deriving DecidableEq

structure Reload where
  task : ℕ
  fileId : FileId
  deriving DecidableEq

structure Write where
  task : ℕ
  fileId : FileId
  content : Str
  deriving DecidableEq

structure GlobalBufferModel where
  locationToId : BiMap PathBuf FileId
  buffers : HashMap FileId ServerBuffer
  reloads : List Reload

structure FileModel where
  files : HashSet FileId
  loads : HashSet FileId
  writes : List Write

inductive ResponseBody where
  | openSuccess (content : Str) (serverVersion : ℕ)
  | openError (message : Str)
  | saveSuccess
  | saveError (message : Str)
  | resolveSuccess
  | resolveError (message : Str)
  | internalError (message : Str)
  deriving DecidableEq

structure Response where
  request : PendingBufferRequest
  body : ResponseBody
  deriving DecidableEq

inductive BufferEvent where
  | bufferLoaded (fileId : FileId)
  | failedToLoad (fileId : FileId) (error : Str)
  | fileSaved (fileId : FileId)
  | failedToSave (fileId : FileId) (error : Str)

structure BufferServer where
  buffers : ServerBufferTracker
  globalBuffers : GlobalBufferModel
  fileModel : FileModel
  nextFile : ℕ
  nextTask : ℕ
  nextVersion : ℕ

namespace BufferServer

variable (self : BufferServer)

def new : BufferServer := ⟨.new, ⟨.empty, .empty, []⟩, ⟨.empty, .empty, []⟩, 0, 0, 1⟩

def buffer? (fileId : FileId) : Option ServerBuffer :=
  if fileId ∈ self.buffers.bufferHandles then self.globalBuffers.buffers.get? fileId else none

def contentForFile (fileId : FileId) : Option Str := (self.buffer? fileId).map ServerBuffer.text

def bufferLoaded (fileId : FileId) : Bool := ((self.globalBuffers.buffers.get? fileId).map ServerBuffer.loaded).getD false

def setBuffer (fileId : FileId) (buffer : ServerBuffer) : BufferServer :=
  { self with globalBuffers := { self.globalBuffers with buffers := self.globalBuffers.buffers.insert fileId buffer } }

def withTracker (buffers : ServerBufferTracker) : BufferServer := { self with buffers := buffers }

/-- The buffer is cleaned up. A load of its file is cancelled; its reloads and writes go on. -/
def remove (fileId : FileId) : BufferServer :=
  { self with
    globalBuffers :=
      { self.globalBuffers with
        locationToId := self.globalBuffers.locationToId.removeByRight fileId
        buffers := self.globalBuffers.buffers.remove fileId }
    fileModel :=
      { self.fileModel with files := self.fileModel.files.remove fileId, loads := self.fileModel.loads.remove fileId } }

def createNewBuffer (path : PathBuf) : FileId × BufferServer :=
  let fileId : FileId := ⟨self.nextFile⟩
  (fileId,
    { self with
      globalBuffers :=
        { self.globalBuffers with
          locationToId := self.globalBuffers.locationToId.insert path fileId
          buffers := self.globalBuffers.buffers.insert fileId ⟨[], 0, false⟩ }
      fileModel :=
        { self.fileModel with files := self.fileModel.files.insert fileId, loads := self.fileModel.loads.insert fileId }
      nextFile := self.nextFile + 1 })

/-- The buffer of the path: the one that is there, which is reported if it is loaded, or a new one. -/
def openServerLocal (path : PathBuf) : FileId × List BufferEvent × BufferServer :=
  match self.globalBuffers.locationToId.getByLeft path with
  | some fileId =>
    match self.buffer? fileId with
    | some buffer => (fileId, if buffer.loaded then [.bufferLoaded fileId] else [], self)
    | none => ((self.createNewBuffer path).1, [], (self.createNewBuffer path).2)
  | none => ((self.createNewBuffer path).1, [], (self.createNewBuffer path).2)

def noLocalPath : Str := "force_reload: no local path for file_id=\x7bfile_id:?\x7d".toList

def forceReloadServerLocal (fileId : FileId) : Except Str BufferServer :=
  if (self.globalBuffers.buffers.get? fileId).isNone then .error noLocalPath
  else if (self.globalBuffers.locationToId.getByRight fileId).isNone then
    .error noLocalPath
  else .ok
    { self with
      globalBuffers := { self.globalBuffers with reloads := self.globalBuffers.reloads ++ [⟨self.nextTask, fileId⟩] }
      nextTask := self.nextTask + 1 }

def saveFile (fileId : FileId) (content : Str) : Except Str BufferServer :=
  if fileId ∈ self.fileModel.files then .ok
    { self with
      fileModel := { self.fileModel with writes := self.fileModel.writes ++ [⟨self.nextTask, fileId, content⟩] }
      nextTask := self.nextTask + 1 }
  else .error ("No file path associated with file when saving file ".toList ++ fileId.debug)

def remoteError (message : String) : Str := "Remote file operation failed: ".toList ++ message.toList

def saveServerLocal (fileId : FileId) : Except Str BufferServer :=
  if (self.globalBuffers.buffers.get? fileId).isNone then .error (remoteError "Buffer not found")
  else
    match self.buffer? fileId with
    | none => .error (remoteError "Buffer deallocated")
    | some buffer => self.saveFile fileId buffer.text

/-- The content of the client takes the place of the text and is written to the disk. -/
def resolveConflict (fileId : FileId) (acknowledgedServerVersion : ℕ) (clientContent : Str) : BufferServer × Except Str Unit :=
  match self.globalBuffers.buffers.get? fileId with
  | none => (self, .error (remoteError "Buffer not found"))
  | some buffer =>
    if fileId ∈ self.buffers.bufferHandles then
      let resolved := self.setBuffer fileId ⟨clientContent, acknowledgedServerVersion, true⟩
      match resolved.saveFile fileId clientContent with
      | .error e => (resolved, .error e)
      | .ok saved => (saved, .ok ())
    else (self.setBuffer fileId { buffer with serverVersion := acknowledgedServerVersion },
      .error (remoteError "Buffer deallocated"))

def takePending (fileId : FileId) (kind : PendingBufferRequestKind) (body : ResponseBody) : List Response × BufferServer :=
  let (pending, buffers) := self.buffers.takePendingByKind fileId kind
  (pending.map (⟨·, body⟩), self.withTracker buffers)

def loadedBody (fileId : FileId) : ResponseBody :=
  match self.contentForFile fileId, self.globalBuffers.buffers.get? fileId with
  | some content, some buffer => .openSuccess content buffer.serverVersion
  | _, _ => .internalError ("Buffer loaded but content or sync clock unavailable for file ".toList ++ fileId.debug)

def takeSaves (fileId : FileId) (save resolve : ResponseBody) : List Response × BufferServer :=
  let (saves, self) := self.takePending fileId .saveBuffer save
  let (resolves, self) := self.takePending fileId .resolveConflict resolve
  (saves ++ resolves, self)

def handleEvent : BufferEvent → List Response × BufferServer
  | .bufferLoaded fileId => self.takePending fileId .openBuffer (self.loadedBody fileId)
  | .failedToLoad fileId error =>
    self.takePending fileId .openBuffer (.openError ("Failed to load buffer: ".toList ++ error))
  | .fileSaved fileId => self.takeSaves fileId .saveSuccess .resolveSuccess
  | .failedToSave fileId error => self.takeSaves fileId (.saveError error) (.resolveError error)

def handleEvents (events : List BufferEvent) : List Response × BufferServer :=
  events.foldl (fun (responses, self) event =>
    let (more, self) := handleEvent self event
    (responses ++ more, self)) ([], self)

def openedBody (fileId : FileId) : ResponseBody :=
  match self.contentForFile fileId with
  | none => .openError "Buffer loaded but has no file content".toList
  | some content =>
    match self.globalBuffers.buffers.get? fileId with
    | none => .openError "Buffer loaded but has no sync clock".toList
    | some buffer => .openSuccess content buffer.serverVersion

/-- A buffer that is tracked is read from the disk again. When that cannot begin, all that wait for the buffer to open are
dropped. -/
def reopenBuffer (fileId : FileId) (request : PendingBufferRequest) : List Response × BufferServer :=
  let self := self.withTracker ((self.buffers.addConnection fileId request.connectionId).insertPending fileId request)
  match self.forceReloadServerLocal fileId with
  | .error e => ([⟨request, .openError e⟩], self.withTracker (self.buffers.takePendingByKind fileId .openBuffer).2)
  | .ok self => ([], self)

def handleOpenBuffer (path : Str) (forceReload : Bool) (request : PendingBufferRequest) : List Response × BufferServer :=
  match if forceReload then self.buffers.fileIdForPath path else none with
  | some fileId => self.reopenBuffer fileId request
  | none =>
    let (fileId, events, self) := self.openServerLocal (.ofStr path)
    let self := self.withTracker ((self.buffers.trackOpenBuffer path fileId).addConnection fileId request.connectionId)
    if self.bufferLoaded fileId then
      let (responses, later) := self.handleEvents events
      (⟨request, self.openedBody fileId⟩ :: responses, later)
    else (self.withTracker (self.buffers.insertPending fileId request)).handleEvents events

def handleSaveBuffer (path : Str) (request : PendingBufferRequest) : List Response × BufferServer :=
  match self.buffers.fileIdForPath path with
  | none => ([⟨request, .saveError ("Buffer not open: ".toList ++ path)⟩], self)
  | some fileId =>
    match self.saveServerLocal fileId with
    | .ok self => ([], self.withTracker (self.buffers.insertPending fileId request))
    | .error err => ([⟨request, .saveError ("Failed to save: ".toList ++ err)⟩], self)

def handleResolveConflict (path : Str) (acknowledgedServerVersion : ℕ) (clientContent : Str)
    (request : PendingBufferRequest) : List Response × BufferServer :=
  match self.buffers.fileIdForPath path with
  | none => ([⟨request, .resolveError ("Buffer not open: ".toList ++ path)⟩], self)
  | some fileId =>
    match self.resolveConflict fileId acknowledgedServerVersion clientContent with
    | (self, .ok _) => ([], self.withTracker (self.buffers.insertPending fileId request))
    | (self, .error err) => ([⟨request, .resolveError ("Failed to resolve conflict: ".toList ++ err)⟩], self)

def handleCloseBuffer (path : Str) (connId : ConnectionId) : BufferServer :=
  let (orphaned, buffers) := self.buffers.closeBuffer path connId
  orphaned.toList.foldl remove (self.withTracker buffers)

def deregisterConnection (connId : ConnectionId) : BufferServer :=
  let (orphaned, buffers) := self.buffers.removeConnection connId
  orphaned.foldl remove (self.withTracker buffers)

/-- A load that was cancelled does not end. -/
def loadFinished (fileId : FileId) (result : Except Str Str) : List Response × BufferServer :=
  if fileId ∈ self.fileModel.loads then
    let self := { self with fileModel := { self.fileModel with loads := self.fileModel.loads.remove fileId } }
    match result with
    | .error e => self.handleEvent (.failedToLoad fileId e)
    | .ok content =>
      match self.globalBuffers.buffers.get? fileId with
      | none => ([], self)
      | some buffer =>
        if fileId ∈ self.buffers.bufferHandles then
          (self.setBuffer fileId { buffer with text := content, loaded := true }).handleEvent (.bufferLoaded fileId)
        else ([], self.remove fileId)
  else ([], self)

def reloadFinished (task : ℕ) (result : Except Str Str) : List Response × BufferServer :=
  match self.globalBuffers.reloads.find? (·.task = task) with
  | none => ([], self)
  | some reload =>
    let self := { self with
      globalBuffers := { self.globalBuffers with reloads := self.globalBuffers.reloads.filter (·.task ≠ task) } }
    match result with
    | .error e => self.handleEvent (.failedToLoad reload.fileId e)
    | .ok content =>
      match self.buffer? reload.fileId with
      | none => self.handleEvent (.failedToLoad reload.fileId "File does not exist".toList)
      | some _ =>
        ({ self with nextVersion := self.nextVersion + 1 }.setBuffer reload.fileId ⟨content, self.nextVersion, true⟩).handleEvent
          (.bufferLoaded reload.fileId)

def writeFinished (task : ℕ) (result : Except Str Unit) : List Response × BufferServer :=
  match self.fileModel.writes.find? (·.task = task) with
  | none => ([], self)
  | some write =>
    let self := { self with fileModel := { self.fileModel with writes := self.fileModel.writes.filter (·.task ≠ task) } }
    match result with
    | .error e => self.handleEvent (.failedToSave write.fileId e)
    | .ok _ => self.handleEvent (.fileSaved write.fileId)

/-- Edits of clients and updates from the disk change the text. -/
def setText (fileId : FileId) (text : Str) : BufferServer :=
  match self.buffer? fileId with
  | none => self
  | some buffer => self.setBuffer fileId { buffer with text := text }

end BufferServer

end Warp.Remote
