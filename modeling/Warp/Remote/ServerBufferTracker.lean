import Warp.CodeReview.DiffStateTracker
import Warp.Lib.Lines

namespace Warp.Remote

open CodeReview (ConnectionId)

structure FileId where
  id : ℕ
  deriving DecidableEq

def FileId.debug (self : FileId) : Str := "FileId(".toList ++ (toString self.id).toList ++ [')']

structure PathBuf where
  absolute : Bool
  components : List Str
  deriving DecidableEq

/-- Empty components do not count, and a dot counts only as the first component of a relative path. -/
def PathBuf.ofStr (s : Str) : PathBuf :=
  ⟨s.head? = some '/',
    ((s.splitOn '/').zipIdx.filter fun (name, position) => name ≠ [] ∧ (name ≠ ['.'] ∨ position = 0)).map Prod.fst⟩

inductive PendingBufferRequestKind where
  | openBuffer
  | saveBuffer
  | resolveConflict
  deriving DecidableEq

structure PendingBufferRequest where
  requestId : RequestId
  connectionId : ConnectionId
  kind : PendingBufferRequestKind
  deriving DecidableEq

/-- Strong handles keep the buffers of the model alive. -/
structure ServerBufferTracker where
  openBuffers : HashMap Str FileId
  bufferHandles : HashSet FileId
  bufferConnections : HashMap FileId (HashSet ConnectionId)
  pendingRequests : HashMap FileId (List PendingBufferRequest)

namespace ServerBufferTracker

variable (self : ServerBufferTracker)

def new : ServerBufferTracker := ⟨.empty, .empty, .empty, .empty⟩

def trackOpenBuffer (path : Str) (fileId : FileId) : ServerBufferTracker :=
  { self with openBuffers := self.openBuffers.insert path fileId, bufferHandles := self.bufferHandles.insert fileId }

def fileIdForPath (path : Str) : Option FileId := self.openBuffers.get? path

def connections (fileId : FileId) : HashSet ConnectionId := (self.bufferConnections.get? fileId).getD .empty

def addConnection (fileId : FileId) (connId : ConnectionId) : ServerBufferTracker :=
  { self with bufferConnections := self.bufferConnections.insert fileId ((self.connections fileId).insert connId) }

def forget (fileId : FileId) (openBuffers : HashMap Str FileId) : ServerBufferTracker :=
  { self with
    bufferConnections := self.bufferConnections.remove fileId
    bufferHandles := self.bufferHandles.remove fileId
    openBuffers := openBuffers }

def removeConnection (connId : ConnectionId) : List FileId × ServerBufferTracker :=
  let left := self.bufferConnections.mapValues (·.remove connId)
  let orphaned := (left.entries.filter fun entry => entry.2.isEmpty).map Prod.fst
  (orphaned,
    orphaned.foldl (fun self fileId => self.forget fileId (self.openBuffers.retain fun _ id => id ≠ fileId))
      { self with bufferConnections := left })

/-- The connection leaves the buffer. Without another one it is orphaned, under the path it is closed by. -/
def closeBuffer (path : Str) (connId : ConnectionId) : Option FileId × ServerBufferTracker :=
  match self.openBuffers.get? path with
  | none => (none, self)
  | some fileId =>
    let conns := (self.connections fileId).remove connId
    if conns.isEmpty then (some fileId, self.forget fileId (self.openBuffers.remove path))
    else (none, { self with bufferConnections := self.bufferConnections.insert fileId conns })

def insertPending (fileId : FileId) (request : PendingBufferRequest) : ServerBufferTracker :=
  { self with pendingRequests := self.pendingRequests.extend fileId [request] }

def takePendingByKind (fileId : FileId) (kind : PendingBufferRequestKind) : List PendingBufferRequest × ServerBufferTracker :=
  match self.pendingRequests.get? fileId with
  | none => ([], self)
  | some entries =>
    let kept := entries.filter (·.kind ≠ kind)
    (entries.filter (·.kind = kind),
      { self with
        pendingRequests := if kept = [] then self.pendingRequests.remove fileId else self.pendingRequests.insert fileId kept })

end ServerBufferTracker

end Warp.Remote
