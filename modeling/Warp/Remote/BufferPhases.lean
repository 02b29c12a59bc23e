import Warp.Remote.BufferAlignment

namespace Warp.Remote.BufferSync

open List

open CodeReview (ConnectionId)

structure Given where
  server : ℕ
  client : ℕ

def SyncClock.Before (self : SyncClock) (given : Given) : Prop :=
  self.serverVersion < given.server ∧ self.clientVersion < given.client

def PendingEditBatch.Before (self : PendingEditBatch) (given : Given) : Prop :=
  self.expectedServerVersion < given.server ∧ self.latestClientVersion < given.client

def ClientMessage.Before (given : Given) : ClientMessage → Prop
  | .bufferEdit expectedServerVersion newClientVersion _ =>
    expectedServerVersion < given.server ∧ newClientVersion < given.client
  | .resolveConflict _ _ _ _ => False
  | _ => True

def ServerMessage.Before (given : Given) : ServerMessage → Prop
  | .openBufferResponse _ (.ok success) => success.serverVersion < given.server
  | .bufferUpdatedPush newServerVersion expectedClientVersion _ =>
    newServerVersion < given.server ∧ expectedClientVersion < given.client
  | _ => True

structure RemoteBuffer.Before (buffer : RemoteBuffer) (given : Given) : Prop where
  clock : ∀ clock, buffer.syncClock = some clock → clock.Before given
  batch : ∀ batch, buffer.pendingBatch = some batch → batch.Before given

structure Given.le (earlier later : Given) : Prop where
  server : earlier.server ≤ later.server
  client : earlier.client ≤ later.client

section Mono

variable {given later : Given} (le : given.le later)

include le

theorem SyncClock.Before.mono {clock : SyncClock} (before : clock.Before given) : clock.Before later :=
  ⟨Nat.lt_of_lt_of_le before.1 le.server, Nat.lt_of_lt_of_le before.2 le.client⟩

theorem PendingEditBatch.Before.mono {batch : PendingEditBatch} (before : batch.Before given) : batch.Before later :=
  ⟨Nat.lt_of_lt_of_le before.1 le.server, Nat.lt_of_lt_of_le before.2 le.client⟩

theorem ClientMessage.Before.mono {message : ClientMessage} (before : message.Before given) : message.Before later := by
  cases message with
  | bufferEdit => exact ⟨Nat.lt_of_lt_of_le before.1 le.server, Nat.lt_of_lt_of_le before.2 le.client⟩
  | resolveConflict => exact before
  | openBuffer | saveBuffer => exact trivial

theorem ServerMessage.Before.mono {message : ServerMessage} (before : message.Before given) : message.Before later := by
  cases message with
  | openBufferResponse requestId result =>
    cases result with
    | error => exact trivial
    | ok success => exact Nat.lt_of_lt_of_le before le.server
  | bufferUpdatedPush => exact ⟨Nat.lt_of_lt_of_le before.1 le.server, Nat.lt_of_lt_of_le before.2 le.client⟩
  | bufferConflictDetected | saveBufferResponse | resolveConflictResponse => exact trivial

theorem RemoteBuffer.Before.mono {buffer : RemoteBuffer} (before : buffer.Before given) : buffer.Before later :=
  ⟨fun clock isClock => (before.clock clock isClock).mono le, fun batch isBatch => (before.batch batch isBatch).mono le⟩

end Mono

theorem ServerMessage.Plain.before {message : ServerMessage} (plain : message.Plain) (given : Given) : message.Before given := by
  cases message with
  | openBufferResponse | bufferUpdatedPush => exact plain.elim
  | bufferConflictDetected | saveBufferResponse | resolveConflictResponse => exact trivial

namespace Session

def given (w : Session) : Given := ⟨w.daemon.nextVersion, w.client.nextVersion⟩

def opens (w : Session) : List PendingBufferRequest := w.daemon.ofKind .openBuffer

/-- No version was given twice. -/
structure Bounded (w : Session) : Prop where
  positive : SyncClock.new.Before w.given
  replica : ∀ replica, w.daemon.replica? = some replica → replica.clock.Before w.given
  up : ∀ message ∈ w.up, message.Before w.given
  down : ∀ message ∈ w.down, message.Before w.given
  deallocated : ∀ batch ∈ w.client.deallocated, batch.Before w.given
  buffer : ∀ buffer, w.client.buffer = some buffer → buffer.Before w.given
  rejected : ∀ version ∈ w.rejected, version < w.given.client

/-- There are no edits before the buffer was loaded once. -/
structure Unedited (w : Session) : Prop where
  up : ∀ expectedServerVersion newClientVersion edits, .bufferEdit expectedServerVersion newClientVersion edits ∉ w.up
  deallocated : w.client.deallocated = []
  buffer : ∀ buffer, w.client.buffer = some buffer → buffer.syncClock = none

/-- At most one request to open the buffer is unanswered, and at most one task reads the file for it. -/
structure Settled (w : Session) : Prop where
  tracked : ∀ replica, w.daemon.replica? = some replica → w.daemon.connections = [w.connId]
  untracked : w.daemon.replica? = none →
    w.daemon.connections = [] ∧ w.opens = [] ∧ w.down.flatMap ServerMessage.opened = []
  requesters : ∀ request ∈ w.opens, request.connectionId = w.connId
  single : w.unanswered.length ≤ 1
  task : w.daemon.reloads.length + w.daemon.loading.toNat ≤ 1
  idle : w.opens = [] → w.daemon.reloads = [] ∧ w.daemon.loading = false
  unedited : w.daemon.replica? = none ∨ w.daemon.loading = true → w.Unedited
  loading : w.daemon.loading = true → ∃ replica, w.daemon.replica? = some replica ∧ replica.clock.clientVersion = 0
  unloaded : ∀ buffer, w.client.buffer = some buffer → buffer.syncClock = none → buffer.pendingBatch = none

/-- What is known of the buffer of the client between two requests to open it, and while one is unanswered. -/
inductive Phase (w : Session) (buffer : RemoteBuffer) : Prop
  | reported (reported : w.client.reported = true) (answered : w.unanswered = [])
  | synced (clock : SyncClock) (isClock : buffer.syncClock = some clock) (server : Replica)
      (known : w.daemon.replica? = some server)
      (synced : Synced ⟨buffer.text, clock⟩ buffer.pendingBatch buffer.since w.up w.down server w.rejected)
      (answered : w.unanswered = [])
  | asking (before after : List ClientMessage) (force : Bool)
      (isUp : w.up = before ++ .openBuffer buffer.fileId force :: after)
      (unforced : force = false → buffer.syncClock = none ∧ ∀ expectedServerVersion newClientVersion edits,
        .bufferEdit expectedServerVersion newClientVersion edits ∉ after)
  | waiting (waits : w.opens.map (·.requestId) = [buffer.fileId])
  | failed (e : Str) (fails : .openBufferResponse buffer.fileId (.error e) ∈ w.down)
  | answered (before after : List ServerMessage) (content : Str) (serverVersion : ℕ)
      (isDown : w.down = before ++ .openBufferResponse buffer.fileId (.ok ⟨content, serverVersion⟩) :: after)
      (server : Replica) (known : w.daemon.replica? = some server)
      (synced : Synced ⟨content, ⟨serverVersion, 0⟩⟩ none w.client.nextVersion w.up after server w.rejected)
      (older : ∀ clock, buffer.syncClock = some clock → clock.serverVersion < serverVersion ∧
        (∀ batch, buffer.pendingBatch = some batch → batch.expectedServerVersion < serverVersion) ∧
        ∀ push ∈ pushes before, push.newServerVersion < serverVersion)

structure Inv (w : Session) : Prop where
  bounded : w.Bounded
  settled : w.Settled
  phase : ∀ buffer, w.client.buffer = some buffer → w.Phase buffer

theorem Inv.synced {w : Session} {buffer : RemoteBuffer} (inv : w.Inv) (isBuffer : w.client.buffer = some buffer)
    (answered : w.unanswered = []) (unreported : w.client.reported = false) :
    ∃ clock server, buffer.syncClock = some clock ∧ w.daemon.replica? = some server ∧
      Synced ⟨buffer.text, clock⟩ buffer.pendingBatch buffer.since w.up w.down server w.rejected := by
  unfold unanswered at answered
  simp only [append_eq_nil_iff, flatMap_eq_nil_iff] at answered
  obtain ⟨⟨asked, waited⟩, responded⟩ := answered
  cases inv.phase buffer isBuffer with
  | reported reported =>
    rw [unreported] at reported
    cases reported
  | synced clock isClock server known synced => exact ⟨clock, server, isClock, known, synced⟩
  | asking before after force isUp => cases asked _ (isUp ▸ mem_append_right before (mem_cons_self ..))
  | waiting waits =>
    have none : w.opens.map (·.requestId) = [] := waited
    rw [waits] at none
    cases none
  | failed e fails => cases responded _ fails
  | answered before after content serverVersion isDown =>
    cases responded _ (isDown ▸ mem_append_right before (mem_cons_self ..))

theorem converges_of_inv {w : Session} (inv : w.Inv) : w.Converges := by
  intro buffer isBuffer quiet
  obtain ⟨clock, server, isClock, known, synced⟩ := inv.synced isBuffer quiet.unanswered quiet.reported
  rw [quiet.batch, quiet.up, quiet.down] at synced
  obtain ⟨state, isState, rfl⟩ := Option.map_eq_some_iff.mp known
  have aligned : Aligned ⟨buffer.text, clock⟩ none buffer.since [] [] state.replica w.rejected := by
    rcases synced.outcome with (conflict | ⟨push, member, -⟩) | aligned
    · cases conflict
    · cases member
    · exact aligned
  have same := aligned.settled
  refine ⟨state, isState, congrArg Replica.text same, ?_, aligned.rejected⟩
  rw [isClock]
  exact congrArg (fun replica => some replica.clock) same

variable {w w' : Session} {out : Dispatch} {d' : Daemon} {buffer : RemoteBuffer}

def routed (w : Session) (out : Dispatch) : List ServerMessage := (out.filter (·.1 = w.connId)).map Prod.snd

theorem Bounded.daemon (bounded : w.Bounded) (client : w'.client = w.client)
    (nextVersion : w.daemon.nextVersion ≤ w'.daemon.nextVersion)
    (replica : ∀ replica, w'.daemon.replica? = some replica → replica.clock.Before w'.given)
    (up : ∀ message ∈ w'.up, message ∈ w.up) (down : ∀ message ∈ w'.down, message ∈ w.down ∨ message.Before w'.given)
    (rejected : ∀ version ∈ w'.rejected, version ∈ w.rejected ∨ version < w.given.client) : w'.Bounded := by
  have le : w.given.le w'.given := ⟨nextVersion, by unfold given; rw [client]⟩
  refine ⟨bounded.positive.mono le, replica, fun message member => (bounded.up message (up message member)).mono le, ?_,
    ?_, ?_, ?_⟩
  · intro message member
    rcases down message member with old | new
    · exact (bounded.down message old).mono le
    · exact new
  · rw [client]
    exact fun batch member => (bounded.deallocated batch member).mono le
  · rw [client]
    exact fun buffer isBuffer => (bounded.buffer buffer isBuffer).mono le
  · intro version member
    rcases rejected version member with old | new
    · exact Nat.lt_of_lt_of_le (bounded.rejected version old) le.client
    · exact Nat.lt_of_lt_of_le new le.client

theorem Settled.daemon (settled : w.Settled) (connId : w'.connId = w.connId) (client : w'.client = w.client)
    (edits : Daemon.Edits w.daemon w'.daemon) (known : w'.daemon.replica?.isSome = w.daemon.replica?.isSome)
    (loading : w.daemon.loading = true → ∀ replica, w.daemon.replica? = some replica → replica.clock.clientVersion = 0 →
      ∃ replica, w'.daemon.replica? = some replica ∧ replica.clock.clientVersion = 0)
    (up : ∀ message ∈ w'.up, message ∈ w.up) (down : w'.down.flatMap ServerMessage.opened = w.down.flatMap ServerMessage.opened)
    (unanswered : w'.unanswered = w.unanswered) : w'.Settled := by
  have opens : w'.opens = w.opens := edits.opens
  have missing : w'.daemon.replica? = none ↔ w.daemon.replica? = none := by
    rw [← Option.not_isSome_iff_eq_none, ← Option.not_isSome_iff_eq_none, known]
  refine ⟨?_, ?_, ?_, ?_, ?_, ?_, ?_, ?_, ?_⟩
  · intro replica isReplica
    rw [isReplica] at known
    obtain ⟨old, isOld⟩ := Option.isSome_iff_exists.mp known.symm
    rw [edits.connections, connId]
    exact settled.tracked old isOld
  · rw [missing, edits.connections, opens, down]
    exact settled.untracked
  · rw [opens, connId]
    exact settled.requesters
  · rw [unanswered]
    exact settled.single
  · rw [edits.reloads, edits.loading]
    exact settled.task
  · rw [opens, edits.reloads, edits.loading]
    exact settled.idle
  · rw [missing, edits.loading]
    intro early
    have unedited := settled.unedited early
    refine ⟨fun _ _ _ member => unedited.up _ _ _ (up _ member), ?_, ?_⟩
    · rw [client]
      exact unedited.deallocated
    · rw [client]
      exact unedited.buffer
  · rw [edits.loading]
    intro isLoading
    obtain ⟨replica, isReplica, zero⟩ := settled.loading isLoading
    exact loading isLoading replica isReplica zero
  · rw [client]
    exact settled.unloaded

theorem Settled.opens_of_answered (answered : w.unanswered = []) : w.opens = [] := by
  unfold unanswered at answered
  simp only [append_eq_nil_iff, map_eq_nil_iff] at answered
  exact answered.1.2

theorem opened_of_plain {message : ServerMessage} (plain : message.Plain) : ServerMessage.opened message = [] := by
  cases message with
  | openBufferResponse | bufferUpdatedPush => exact plain.elim
  | bufferConflictDetected | saveBufferResponse | resolveConflictResponse => rfl

theorem Inv.still (inv : w.Inv) (still : Daemon.Still w.daemon out d') : (w.dispatch (out, d')).Inv := by
  have plain : ∀ message ∈ w.routed out, message.Plain := by
    intro message member
    obtain ⟨entry, isEntry, rfl⟩ := List.mem_map.mp member
    exact still.plain entry (List.mem_filter.mp isEntry).1
  have down : (w.dispatch (out, d')).down = w.down ++ w.routed out := rfl
  have opened : (w.dispatch (out, d')).down.flatMap ServerMessage.opened = w.down.flatMap ServerMessage.opened := by
    rw [down, flatMap_append, List.flatMap_eq_nil_iff.mpr fun message member => opened_of_plain (plain message member),
      append_nil]
  have answered : (w.dispatch (out, d')).unanswered = w.unanswered := by
    unfold unanswered
    rw [opened]
    show _ ++ (d'.ofKind .openBuffer).map _ ++ _ = _
    rw [still.opens]
    rfl
  refine ⟨?_, ?_, ?_⟩
  · refine inv.bounded.daemon rfl still.nextVersion ?_ (fun _ => id) ?_ fun _ => .inl
    · intro replica known
      have old : w.daemon.replica? = some replica := still.replica.symm.trans known
      have le : w.given.le (w.dispatch (out, d')).given := ⟨still.nextVersion, Nat.le_refl _⟩
      exact (inv.bounded.replica replica old).mono le
    · intro message member
      rw [down] at member
      exact (List.mem_append.mp member).imp_right fun new => (plain message new).before _
  · refine inv.settled.daemon rfl rfl ⟨still.connections, still.opens, still.reloads, still.loading, still.nextVersion⟩
      (congrArg Option.isSome still.replica) ?_ (fun _ => id) opened answered
    exact fun _ replica known zero => ⟨replica, still.replica.trans known, zero⟩
  · intro buffer isBuffer
    cases inv.phase buffer isBuffer with
    | reported reported quiet => exact .reported reported (answered.trans quiet)
    | synced clock isClock server known synced quiet =>
      exact .synced clock isClock server (still.replica.trans known) (synced.append_plain plain) (answered.trans quiet)
    | asking before after force isUp unforced => exact .asking before after force isUp unforced
    | waiting waits => exact .waiting ((congrArg _ still.opens).trans waits)
    | failed e fails => exact .failed e (mem_append_left _ fails)
    | answered before after content serverVersion isDown server known synced older =>
      refine .answered before (after ++ w.routed out) content serverVersion ?_ server (still.replica.trans known)
        (synced.append_plain plain) older
      rw [down, isDown, append_assoc, cons_append]

theorem length_unanswered : w.unanswered.length = (w.up.flatMap ClientMessage.opens).length + w.opens.length +
    (w.down.flatMap ServerMessage.opened).length := by
  unfold unanswered
  rw [length_append, length_append, length_map]
  rfl

theorem opens_pos {requestId : ℕ} {force : Bool} (member : .openBuffer requestId force ∈ w.up) :
    0 < (w.up.flatMap ClientMessage.opens).length :=
  length_pos_of_mem (List.mem_flatMap.mpr ⟨_, member, mem_singleton_self requestId⟩)

variable {result : Except Str OpenBufferSuccess} {edits : List CharOffsetEdit}

theorem opened_pos {requestId : ℕ} (member : .openBufferResponse requestId result ∈ w.down) :
    0 < (w.down.flatMap ServerMessage.opened).length :=
  length_pos_of_mem (List.mem_flatMap.mpr ⟨_, member, mem_singleton_self requestId⟩)

theorem Settled.opens_of_opened (settled : w.Settled) {requestId : ℕ}
    (member : .openBufferResponse requestId result ∈ w.down) : w.opens = [] := by
  have single := settled.single
  have one := opened_pos member
  rw [length_unanswered] at single
  exact eq_nil_of_length_eq_zero (by omega)

theorem Settled.routed_pushes (settled : w.Settled) {replica : Replica} (known : w.daemon.replica? = some replica)
    {newServerVersion expectedClientVersion : ℕ} :
    w.routed (w.daemon.pushes newServerVersion expectedClientVersion edits) =
      if w.opens = [] then [.bufferUpdatedPush newServerVersion expectedClientVersion edits] else [] := by
  have tracked := settled.tracked replica known
  unfold routed Daemon.pushes
  rw [tracked]
  split_ifs with nobody
  · have nobody : w.daemon.pendingConnectionsForOpenBuffer = [] := by
      unfold Daemon.pendingConnectionsForOpenBuffer
      rw [show w.daemon.ofKind .openBuffer = [] from nobody]
      rfl
    rw [nobody]
    simp
  · obtain ⟨request, member⟩ := exists_mem_of_ne_nil _ nobody
    have waits : w.connId ∈ w.daemon.pendingConnectionsForOpenBuffer :=
      List.mem_map.mpr ⟨request, member, settled.requesters request member⟩
    simp [waits]

theorem Inv.bumps (inv : w.Inv) (bumps : Daemon.Bumps w.daemon edits d') {state : ServerLocal}
    (isState : w.daemon.state = some state) :
    (w.dispatch (w.daemon.pushes w.daemon.nextVersion state.syncClock.clientVersion edits, d')).Inv := by
  have known : w.daemon.replica? = some state.replica := by
    unfold Daemon.replica?
    rw [isState]
    rfl
  have changed : d'.replica? = some (state.replica.pushed (w.daemon.nextVersion, edits)) := by
    obtain ⟨replica, isReplica, isChanged⟩ := bumps.replica
    rw [isChanged, Option.some_inj.mp (known.symm.trans isReplica)]
  set push : ServerMessage := .bufferUpdatedPush w.daemon.nextVersion state.syncClock.clientVersion edits with isPush
  set more := w.routed (w.daemon.pushes w.daemon.nextVersion state.syncClock.clientVersion edits) with isMore
  have routes : more = if w.opens = [] then [push] else [] := inv.settled.routed_pushes known
  have onlyPush : ∀ message ∈ more, message = push := by
    rw [routes]
    split_ifs
    · exact fun message => List.mem_singleton.mp
    · exact fun message => (nomatch ·)
  have le : w.daemon.nextVersion ≤ d'.nextVersion := by
    rw [bumps.nextVersion]
    exact Nat.le_succ _
  have replicaBefore := inv.bounded.replica _ known
  have pushBefore : push.Before (w.dispatch (w.daemon.pushes w.daemon.nextVersion state.syncClock.clientVersion edits, d')).given :=
    ⟨Nat.lt_of_lt_of_le (Nat.lt_succ_self _) (Nat.le_of_eq bumps.nextVersion.symm), replicaBefore.2⟩
  have opened : (w.down ++ more).flatMap ServerMessage.opened = w.down.flatMap ServerMessage.opened := by
    have nothing : more.flatMap ServerMessage.opened = [] :=
      List.flatMap_eq_nil_iff.mpr fun message member => congrArg ServerMessage.opened (onlyPush message member)
    rw [flatMap_append, nothing, append_nil]
  have answered : (w.dispatch (w.daemon.pushes w.daemon.nextVersion state.syncClock.clientVersion edits, d')).unanswered =
      w.unanswered := by
    show _ ++ (d'.ofKind .openBuffer).map _ ++ (w.down ++ more).flatMap _ = _
    rw [opened, bumps.opens]
    rfl
  refine ⟨?_, ?_, ?_⟩
  · refine inv.bounded.daemon rfl le ?_ (fun _ => id) ?_ fun _ => .inl
    · intro replica isReplica
      rw [← Option.some_inj.mp (changed.symm.trans isReplica)]
      exact ⟨pushBefore.1, replicaBefore.2⟩
    · intro message member
      refine (List.mem_append.mp member).imp_right fun new => ?_
      rw [onlyPush message new]
      exact pushBefore
  · refine inv.settled.daemon rfl rfl ⟨bumps.connections, bumps.opens, bumps.reloads, bumps.loading, le⟩ ?_ ?_ (fun _ => id)
      opened answered
    · show d'.replica?.isSome = _
      rw [changed, known]
      rfl
    · intro _ replica isReplica zero
      rw [← Option.some_inj.mp (known.symm.trans isReplica)] at zero
      exact ⟨_, changed, zero⟩
  · have pushed : ∀ {client batch since down}, w.opens = [] →
        (∀ version ∈ client.clock.serverVersion :: (pushes down).map Push.newServerVersion, version < w.daemon.nextVersion) →
        Synced client batch since w.up down state.replica w.rejected →
        Synced client batch since w.up (down ++ more) (state.replica.pushed (w.daemon.nextVersion, edits)) w.rejected := by
      intro client batch since down nobody fresh synced
      rw [routes, if_pos nobody]
      exact synced.bump fresh
    have pushedBefore : ∀ push ∈ pushes w.down, push.newServerVersion < w.daemon.nextVersion :=
      fun push member => (inv.bounded.down _ (mem_pushes.mp member)).1
    intro buffer isBuffer
    cases inv.phase buffer isBuffer with
    | reported reported quiet => exact .reported reported (answered.trans quiet)
    | synced clock isClock server isServer synced quiet =>
      rw [← Option.some_inj.mp (known.symm.trans isServer)] at synced
      refine .synced clock isClock _ changed (pushed (Settled.opens_of_answered quiet) ?_ synced) (answered.trans quiet)
      intro version member
      rcases List.mem_cons.mp member with rfl | member
      · exact ((inv.bounded.buffer buffer isBuffer).clock clock isClock).1
      · obtain ⟨push, isPush, rfl⟩ := List.mem_map.mp member
        exact pushedBefore push isPush
    | asking before after force isUp unforced => exact .asking before after force isUp unforced
    | waiting waits => exact .waiting ((congrArg _ bumps.opens).trans waits)
    | failed e fails => exact .failed e (mem_append_left _ fails)
    | answered before after content serverVersion isDown server isServer synced older =>
      rw [← Option.some_inj.mp (known.symm.trans isServer)] at synced
      have isAnswer : .openBufferResponse buffer.fileId (.ok ⟨content, serverVersion⟩) ∈ w.down := by
        rw [isDown]
        exact mem_append_right _ mem_cons_self
      refine .answered before (after ++ more) content serverVersion ?_ _ changed
        (pushed (inv.settled.opens_of_opened isAnswer) ?_ synced) older
      · show w.down ++ more = _
        rw [isDown, append_assoc, cons_append]
      · intro version member
        rcases List.mem_cons.mp member with rfl | member
        · exact inv.bounded.down _ isAnswer
        · obtain ⟨push, isPush, rfl⟩ := List.mem_map.mp member
          refine pushedBefore push (mem_pushes.mpr ?_)
          rw [isDown]
          exact mem_append_right _ (mem_cons_of_mem _ (mem_pushes.mp isPush))

end Session

end Warp.Remote.BufferSync
