import Warp.Lib.Trace
import Warp.Remote.SyncedBuffer

namespace Warp.Remote.BufferSync

open CodeReview (ConnectionId)

structure PendingEditBatch where
  expectedServerVersion : ℕ
  edits : List CharOffsetEdit
  latestClientVersion : ℕ
  deriving DecidableEq

def PendingEditBatch.flush (self : PendingEditBatch) : List ClientMessage :=
  if self.edits = [] then [] else [.bufferEdit self.expectedServerVersion self.latestClientVersion self.edits]

/-- A buffer of the client, with the first version that is left for its edits since it was loaded. Its clock is set when it
is loaded. -/
structure RemoteBuffer where
  fileId : ℕ
  text : Str
  syncClock : Option SyncClock
  pendingBatch : Option PendingEditBatch
  since : ℕ
  deriving DecidableEq

/-- The client of one path, with the batches of buffers that were deallocated but not yet removed, and whether it has reported
a conflict or a failed load since the last response to an `OpenBuffer`. -/
structure Client where
  buffer : Option RemoteBuffer
  deallocated : List PendingEditBatch
  nextFile : ℕ
  nextVersion : ℕ
  reported : Bool
  deriving DecidableEq

namespace Client

variable (self : Client)

def new : Client := ⟨none, [], 0, 1, false⟩

def withBuffer (buffer : RemoteBuffer) : Client := { self with buffer := some buffer }

def openRemoteBuffer : List ClientMessage × Client :=
  match self.buffer with
  | some _ => ([], self)
  | none =>
    ([.openBuffer self.nextFile false],
      { self with buffer := some ⟨self.nextFile, [], none, none, 0⟩, nextFile := self.nextFile + 1, reported := false })

def reopenRemoteBuffer : List ClientMessage × Client :=
  match self.buffer with
  | none => ([], self)
  | some buffer => ([.openBuffer buffer.fileId true], self)

def dropBuffer : Client :=
  { self with
    buffer := none
    deallocated := self.deallocated ++ (self.buffer.bind RemoteBuffer.pendingBatch).toList }

def removeDeallocatedBuffers : Client := { self with deallocated := [] }

/-- Edits of a buffer that is not loaded are not sent. -/
def edit (edits : List CharOffsetEdit) : Client :=
  match self.buffer with
  | none => self
  | some buffer =>
    let text := applySequentially edits buffer.text
    match buffer.syncClock with
    | none => self.withBuffer { buffer with text := text }
    | some clock =>
      let clientVersion := self.nextVersion
      let batch := buffer.pendingBatch.getD ⟨clock.serverVersion, [], clientVersion⟩
      { self with nextVersion := clientVersion + 1 }.withBuffer
        { buffer with
          text := text
          syncClock := some { clock with clientVersion := clientVersion }
          pendingBatch := some { batch with edits := batch.edits ++ edits, latestClientVersion := clientVersion } }

def flush : List ClientMessage × Client :=
  match self.buffer with
  | none => ([], self)
  | some buffer =>
    match buffer.pendingBatch with
    | none => ([], self)
    | some batch => (batch.flush, self.withBuffer { buffer with pendingBatch := none })

def flushDeallocated (index : ℕ) : List ClientMessage × Client :=
  match self.deallocated[index]? with
  | none => ([], self)
  | some batch => (batch.flush, { self with deallocated := self.deallocated.eraseIdx index })

def save : List ClientMessage × Client :=
  match self.buffer with
  | none => ([], self)
  | some buffer =>
    let (messages, self) := self.flush
    (messages ++ [.saveBuffer buffer.fileId], self)

/-- A response for another buffer finds none. -/
def applyOpenBufferResponse (fileId : ℕ) (result : Except Str OpenBufferSuccess) : Client :=
  match self.buffer with
  | none => self
  | some buffer =>
    if buffer.fileId = fileId then
      match result with
      | .error _ => { self with reported := true }
      | .ok success =>
        { self with reported := false }.withBuffer
          ⟨fileId, success.content, some ⟨success.serverVersion, 0⟩, none, self.nextVersion⟩
    else self

def handleBufferConflictDetected : Client :=
  match self.buffer with
  | none => self
  | some buffer => { self with reported := true }.withBuffer { buffer with pendingBatch := none }

def handleBufferUpdatedPush (newServerVersion expectedClientVersion : ℕ) (edits : List CharOffsetEdit) : Client :=
  match self.buffer with
  | none => self
  | some buffer =>
    match buffer.syncClock with
    | none => self
    | some clock =>
      if clock.serverPushMatches expectedClientVersion then
        self.withBuffer { buffer with
          text := applyAtOnce edits buffer.text, syncClock := some { clock with serverVersion := newServerVersion } }
      else if newServerVersion ≤ clock.serverVersion then self
      else { self with reported := true }.withBuffer { buffer with pendingBatch := none }

def receive : ServerMessage → Client
  | .openBufferResponse fileId result => self.applyOpenBufferResponse fileId result
  | .bufferUpdatedPush newServerVersion expectedClientVersion edits =>
    self.handleBufferUpdatedPush newServerVersion expectedClientVersion edits
  | .bufferConflictDetected => self.handleBufferConflictDetected
  | .saveBufferResponse _ _ => self
  | .resolveConflictResponse _ _ => self

end Client

inductive Action where
  | openRemoteBuffer
  | reopenRemoteBuffer
  | dropBuffer
  | removeDeallocatedBuffers
  | flushDeallocated (index : ℕ)
  | edit (first : CharOffsetEdit) (rest : List CharOffsetEdit)
  | flush
  | save
  | receive
  | handleMessage
  | loadFinished (result : Except Str Str)
  | fileUpdated (content : Str)
  | applyDiffResult
  | reloadFinished (task : ℕ) (result : Except Str Str)
  | writeFinished (task : ℕ) (result : Except Str Unit)

/-- A client and the daemon with what is under way between them, and the versions of the batches that were dropped. -/
structure Session where
  connId : ConnectionId
  client : Client
  daemon : Daemon
  up : List ClientMessage
  down : List ServerMessage
  rejected : List ℕ

namespace Session

variable (textDiff : Str → Str → List CharOffsetEdit) (w : Session)

def new (connId : ConnectionId) : Session := ⟨connId, .new, .new, [], [], []⟩

def send (outcome : List ClientMessage × Client) : Session := { w with client := outcome.2, up := w.up ++ outcome.1 }

def dispatch (outcome : Dispatch × Daemon) : Session :=
  { w with daemon := outcome.2, down := w.down ++ (outcome.1.filter (·.1 = w.connId)).map Prod.snd }

def dropped : ClientMessage → List ℕ
  | .bufferEdit expectedServerVersion newClientVersion edits =>
    if (w.daemon.applyClientEdit expectedServerVersion newClientVersion edits).2 then [] else [newClientVersion]
  | _ => []

def handleMessage : Session :=
  match w.up with
  | [] => w
  | message :: up =>
    { w with up := up, rejected := w.rejected ++ w.dropped message }.dispatch (w.daemon.handleMessage w.connId message)

def receive : Session :=
  match w.down with
  | [] => w
  | message :: down => { w with client := w.client.receive message, down := down }

def step (w : Session) : Action → Session
  | .openRemoteBuffer => w.send w.client.openRemoteBuffer
  | .reopenRemoteBuffer => w.send w.client.reopenRemoteBuffer
  | .dropBuffer => { w with client := w.client.dropBuffer }
  | .removeDeallocatedBuffers => { w with client := w.client.removeDeallocatedBuffers }
  | .flushDeallocated index => w.send (w.client.flushDeallocated index)
  | .edit first rest => { w with client := w.client.edit (first :: rest) }
  | .flush => w.send w.client.flush
  | .save => w.send w.client.save
  | .receive => w.receive
  | .handleMessage => w.handleMessage
  | .loadFinished result => w.dispatch (w.daemon.loadFinished result)
  | .fileUpdated content => w.dispatch (w.daemon.fileUpdated textDiff content)
  | .applyDiffResult => w.dispatch w.daemon.applyDiffResult
  | .reloadFinished task result => w.dispatch (w.daemon.reloadFinished task result)
  | .writeFinished task result => w.dispatch (w.daemon.writeFinished task result)

def ClientMessage.opens : ClientMessage → List ℕ
  | .openBuffer requestId _ => [requestId]
  | _ => []

def ServerMessage.opened : ServerMessage → List ℕ
  | .openBufferResponse requestId _ => [requestId]
  | _ => []

def unanswered : List ℕ :=
  w.up.flatMap ClientMessage.opens ++ (w.daemon.ofKind .openBuffer).map (·.requestId) ++ w.down.flatMap ServerMessage.opened

/-- A buffer is not opened while a request to open it is unanswered, nor without a reload when the daemon has it with edits
of a client, and none that was deallocated sends its edits once the path is open again. -/
def Proper : Action → Prop
  | .openRemoteBuffer => w.unanswered = []
  | .reopenRemoteBuffer => w.unanswered = []
  | .flushDeallocated _ => w.client.buffer = none
  | .handleMessage => ∀ requestId up, w.up = .openBuffer requestId false :: up →
      ∀ state, w.daemon.state = some state → w.daemon.loaded → state.syncClock.clientVersion = 0
  | _ => True

/-- Nothing is under way, all edits are sent, and the buffer was loaded without a conflict since. -/
structure Quiet (buffer : RemoteBuffer) : Prop where
  up : w.up = []
  down : w.down = []
  unanswered : w.unanswered = []
  batch : buffer.pendingBatch = none
  reported : w.client.reported = false

/-- The client has what the daemon has, and lost no edit that was made since its buffer was loaded. -/
def Converges : Prop := ∀ buffer, w.client.buffer = some buffer → w.Quiet buffer → ∃ state, w.daemon.state = some state ∧
  buffer.text = state.buffer.text ∧ buffer.syncClock = some state.syncClock ∧ ∀ version ∈ w.rejected, version < buffer.since

end Session

end Warp.Remote.BufferSync
