import Warp.Lib.RequestBook
import Warp.Lib.Trace
import Warp.Remote.BufferServer

namespace Warp.Remote.BufferServer

open CodeReview (ConnectionId)

structure Request where
  pending : PendingBufferRequest
  fileId : Option FileId
  content : Str
  since : ℕ
  deriving DecidableEq

structure Answer where
  response : Response
  written : ℕ
  deriving DecidableEq

inductive Action where
  | openBuffer (connId : ConnectionId) (requestId : RequestId) (path : Str) (forceReload : Bool)
  | saveBuffer (connId : ConnectionId) (requestId : RequestId) (path : Str)
  | resolveConflict (connId : ConnectionId) (requestId : RequestId) (path : Str) (acknowledgedServerVersion : ℕ)
      (clientContent : Str)
  | closeBuffer (connId : ConnectionId) (path : Str)
  | disconnect (connId : ConnectionId)
  | setText (fileId : FileId) (text : Str)
  | loadFinished (fileId : FileId) (result : Except Str Str)
  | reloadFinished (task : ℕ) (result : Except Str Str)
  | writeFinished (task : ℕ) (result : Except Str Unit)

/-- The daemon with what its clients asked and got, the contents that were written, the paths that buffers were opened by,
and the connections that have them open. -/
structure World where
  server : BufferServer
  requests : List Request
  answers : List Answer
  written : List (FileId × Str)
  opened : List (Str × FileId)
  holding : List (ConnectionId × FileId)
  gone : List ConnectionId

namespace World

variable (w : World)

def new : World := ⟨.new, [], [], [], [], [], []⟩

def tracker : ServerBufferTracker := w.server.buffers

def textOf (fileId : Option FileId) : Str := ((fileId.bind w.server.globalBuffers.buffers.get?).map ServerBuffer.text).getD []

def answer (outcome : List Response × BufferServer) : World :=
  { w with server := outcome.2, answers := w.answers ++ outcome.1.map (⟨·, w.written.length⟩) }

def handle (pending : PendingBufferRequest) (fileId : Option FileId) (outcome : List Response × BufferServer) : World :=
  { w.answer outcome with requests := w.requests ++ [⟨pending, fileId, w.textOf fileId, w.written.length⟩] }

def hold (connId : ConnectionId) (path : Str) : World :=
  match w.tracker.fileIdForPath path with
  | none => w
  | some fileId => { w with opened := w.opened ++ [(path, fileId)], holding := w.holding ++ [(connId, fileId)] }

def wrote (task : ℕ) : List (FileId × Str) :=
  ((w.server.fileModel.writes.find? (·.task = task)).map fun write => (write.fileId, write.content)).toList

/-- One message or event. What cannot happen in a state changes nothing. -/
def step (w : World) : Action → World
  | .openBuffer connId requestId path forceReload =>
    let pending : PendingBufferRequest := ⟨requestId, connId, .openBuffer⟩
    let outcome := w.server.handleOpenBuffer path forceReload pending
    (w.handle pending (outcome.2.buffers.fileIdForPath path) outcome).hold connId path
  | .saveBuffer connId requestId path =>
    let pending : PendingBufferRequest := ⟨requestId, connId, .saveBuffer⟩
    w.handle pending (w.tracker.fileIdForPath path) (w.server.handleSaveBuffer path pending)
  | .resolveConflict connId requestId path acknowledgedServerVersion clientContent =>
    let pending : PendingBufferRequest := ⟨requestId, connId, .resolveConflict⟩
    w.handle pending (w.tracker.fileIdForPath path)
      (w.server.handleResolveConflict path acknowledgedServerVersion clientContent pending)
  | .closeBuffer connId path =>
    { w with
      server := w.server.handleCloseBuffer path connId
      holding := w.holding.filter fun held => ¬ (held.1 = connId ∧ w.tracker.fileIdForPath path = some held.2) }
  | .disconnect connId =>
    { w with
      server := w.server.deregisterConnection connId
      holding := w.holding.filter (·.1 ≠ connId)
      gone := w.gone ++ [connId] }
  | .setText fileId text => { w with server := w.server.setText fileId text }
  | .loadFinished fileId result => w.answer (w.server.loadFinished fileId result)
  | .reloadFinished task result => w.answer (w.server.reloadFinished task result)
  | .writeFinished task result =>
    { w with written := w.written ++ if result.toOption.isSome then w.wrote task else [] }.answer
      (w.server.writeFinished task result)

def waiting (key : Option FileId × PendingBufferRequestKind) : List PendingBufferRequest :=
  match key.1 with
  | none => []
  | some fileId => (w.tracker.pendingRequests.values fileId).filter (·.kind = key.2)

def Asks (connId : ConnectionId) (requestId : RequestId) : Prop :=
  connId ∉ w.gone ∧ ∀ r ∈ w.requests, r.pending.connectionId = connId → r.pending.requestId ≠ requestId

def Fresh : Action → Prop
  | .openBuffer connId requestId _ _ => w.Asks connId requestId
  | .saveBuffer connId requestId _ => w.Asks connId requestId
  | .resolveConflict connId requestId _ _ _ => w.Asks connId requestId
  | _ => True

def Loading (fileId : FileId) : Prop :=
  fileId ∈ w.server.fileModel.loads ∨ ∃ reload ∈ w.server.globalBuffers.reloads, reload.fileId = fileId

def Writing (fileId : FileId) : Prop := ∃ write ∈ w.server.fileModel.writes, write.fileId = fileId

def Last (connId : ConnectionId) (fileId : FileId) : Prop := ∀ other ∈ w.tracker.connections fileId, other = connId

/-- No buffer is given up while requests wait for it or while another path is tracked for it, none whose load failed is
opened again without a reload, and no write ends for a request to save another content. -/
def Proper : Action → Prop
  | .openBuffer _ _ path forceReload =>
    ∀ fileId, w.server.globalBuffers.locationToId.getByLeft (.ofStr path) = some fileId →
      ¬ (forceReload ∧ w.tracker.fileIdForPath path = some fileId) → ¬ w.server.bufferLoaded fileId → w.Loading fileId
  | .closeBuffer connId path =>
    ∀ fileId, w.tracker.fileIdForPath path = some fileId → w.Last connId fileId →
      w.tracker.pendingRequests.values fileId = [] ∧
        ∀ other, w.tracker.fileIdForPath other = some fileId → other = path
  | .disconnect connId =>
    ∀ fileId, (w.tracker.bufferConnections.get? fileId).isSome → w.Last connId fileId →
      w.tracker.pendingRequests.values fileId = []
  | .writeFinished task result => result.toOption.isSome →
    ∀ write ∈ w.server.fileModel.writes, write.task = task → ∀ r ∈ w.requests, r.fileId = some write.fileId →
      r.pending ∈ w.waiting (some write.fileId, .saveBuffer) → r.content = write.content
  | _ => True

def Busy (key : Option FileId × PendingBufferRequestKind) : Prop :=
  ∃ fileId, key.1 = some fileId ∧ if key.2 = .openBuffer then w.Loading fileId else w.Writing fileId

/-- Every request is answered once, saves are reported when they are on the disk, and a buffer is tracked as long as it is
open. -/
structure Truthful (w : World) : Prop where
  once : (w.answers.map fun a => a.response.request).Nodup
  asked : ∀ a ∈ w.answers, ∃ r ∈ w.requests, r.pending = a.response.request
  answered : ∀ r ∈ w.requests, (∃ a ∈ w.answers, a.response.request = r.pending) ∨
    r.pending ∈ w.waiting (r.fileId, r.pending.kind) ∧ w.Busy (r.fileId, r.pending.kind)
  loadAnswers : ∀ fileId ∈ w.server.fileModel.loads, ∀ result,
    (w.step (.loadFinished fileId result)).waiting (some fileId, .openBuffer) = []
  reloadAnswers : ∀ reload ∈ w.server.globalBuffers.reloads, ∀ result,
    (w.step (.reloadFinished reload.task result)).waiting (some reload.fileId, .openBuffer) = []
  writeAnswers : ∀ write ∈ w.server.fileModel.writes, ∀ result, ∀ kind, kind ≠ .openBuffer →
    (w.step (.writeFinished write.task result)).waiting (some write.fileId, kind) = []
  saved : ∀ a ∈ w.answers, a.response.body = .saveSuccess → ∃ r ∈ w.requests, ∃ fileId, r.pending = a.response.request ∧
    r.fileId = some fileId ∧ (fileId, r.content) ∈ (w.written.take a.written).drop r.since
  pendingTracked : ∀ fileId, w.tracker.pendingRequests.values fileId ≠ [] →
    ∃ path, w.tracker.fileIdForPath path = some fileId
  tracked : ∀ path fileId, w.tracker.fileIdForPath path = some fileId ↔
    (path, fileId) ∈ w.opened ∧ ∃ connId, (connId, fileId) ∈ w.holding
  alive : ∀ fileId, (w.server.buffer? fileId).isSome ↔ ∃ connId, (connId, fileId) ∈ w.holding

end World

end Warp.Remote.BufferServer
