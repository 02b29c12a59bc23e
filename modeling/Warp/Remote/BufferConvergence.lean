import Warp.Remote.BufferSteps

namespace Warp.Remote.BufferSync.Session

open List

variable {w : Session} {c : Client} {up : List ClientMessage} {down : List ServerMessage} {buffer : RemoteBuffer}
  {textDiff : Str → Str → List CharOffsetEdit}

theorem Bounded.client (bounded : w.Bounded) (nextVersion : w.client.nextVersion ≤ c.nextVersion)
    (sent : ∀ message ∈ up, message ∈ w.up ∨ message.Before ⟨w.daemon.nextVersion, c.nextVersion⟩)
    (left : ∀ message ∈ down, message ∈ w.down)
    (deallocated : ∀ batch ∈ c.deallocated, batch ∈ w.client.deallocated ∨
      batch.Before ⟨w.daemon.nextVersion, c.nextVersion⟩)
    (buffer : ∀ buffer, c.buffer = some buffer → w.client.buffer = some buffer ∨
      buffer.Before ⟨w.daemon.nextVersion, c.nextVersion⟩) :
    ({ w with client := c, up := up, down := down } : Session).Bounded := by
  have le : w.given.le ⟨w.daemon.nextVersion, c.nextVersion⟩ := ⟨Nat.le_refl _, nextVersion⟩
  refine ⟨bounded.positive.mono le, fun replica known => (bounded.replica replica known).mono le, ?_,
    fun message member => (bounded.down message (left message member)).mono le, ?_, ?_,
    fun version member => Nat.lt_of_lt_of_le (bounded.rejected version member) nextVersion⟩
  · intro message member
    exact (sent message member).elim (fun old => (bounded.up message old).mono le) id
  · intro batch member
    exact (deallocated batch member).elim (fun old => (bounded.deallocated batch old).mono le) id
  · intro later isBuffer
    exact (buffer later isBuffer).elim (fun old => (bounded.buffer later old).mono le) id

theorem Settled.client (settled : w.Settled)
    (left : w.down.flatMap ServerMessage.opened = [] → down.flatMap ServerMessage.opened = [])
    (single : ({ w with client := c, up := up, down := down } : Session).unanswered.length ≤ 1)
    (unedited : w.Unedited → w.down.flatMap ServerMessage.opened = [] →
      ({ w with client := c, up := up, down := down } : Session).Unedited)
    (unloaded : ∀ buffer, c.buffer = some buffer → buffer.syncClock = none → buffer.pendingBatch = none) :
    ({ w with client := c, up := up, down := down } : Session).Settled := by
  refine ⟨settled.tracked, ?_, settled.requesters, single, settled.task, settled.idle, ?_, settled.loading, unloaded⟩
  · intro missing
    obtain ⟨connections, nobody, nothing⟩ := settled.untracked missing
    exact ⟨connections, nobody, left nothing⟩
  · intro early
    refine unedited (settled.unedited early) ?_
    rcases early with missing | loading
    · exact (settled.untracked missing).2.2
    · have some : w.opens ≠ [] := by
        intro none
        have idle : w.daemon.loading = false := (settled.idle none).2
        exact absurd loading (by rw [idle]; exact Bool.false_ne_true)
      obtain ⟨request, -, -, nothing⟩ := settled.one some
      exact nothing

theorem single_of_asked {requestId : ℕ} {force : Bool} (answered : w.unanswered = []) :
    ({ w with client := c, up := w.up ++ [.openBuffer requestId force] } : Session).unanswered.length ≤ 1 := by
  have none := congrArg List.length answered
  rw [length_unanswered, length_nil] at none
  rw [length_unanswered]
  show ((w.up ++ [_]).flatMap _).length + w.opens.length + (w.down.flatMap _).length ≤ 1
  rw [flatMap_append, length_append]
  have one : ([ClientMessage.openBuffer requestId force].flatMap ClientMessage.opens).length = 1 := rfl
  omega

theorem Inv.openRemoteBuffer (inv : w.Inv) (answered : w.unanswered = []) : (w.send w.client.openRemoteBuffer).Inv := by
  cases isBuffer : w.client.buffer with
  | some buffer =>
    have same : w.send w.client.openRemoteBuffer = w := by
      unfold send Client.openRemoteBuffer
      rw [isBuffer]
      dsimp only
      rw [append_nil]
    rw [same]
    exact inv
  | none =>
    have isNext : w.send w.client.openRemoteBuffer = { w with
        client := { w.client with
          buffer := some ⟨w.client.nextFile, [], none, none, 0⟩, nextFile := w.client.nextFile + 1, reported := false }
        up := w.up ++ [.openBuffer w.client.nextFile false] } := by
      unfold send Client.openRemoteBuffer
      rw [isBuffer]
    rw [isNext]
    refine ⟨?_, ?_, ?_⟩
    · refine inv.bounded.client (Nat.le_refl _) ?_ (fun _ => id) (fun _ => .inl) ?_
      · intro message member
        refine (List.mem_append.mp member).imp_right fun new => ?_
        rw [List.mem_singleton.mp new]
        exact trivial
      · intro buffer isNew
        rw [← Option.some_inj.mp isNew]
        exact .inr ⟨fun _ => (nomatch ·), fun _ => (nomatch ·)⟩
    · refine inv.settled.client id (single_of_asked answered) ?_ ?_
      · intro unedited _
        refine ⟨?_, unedited.deallocated, ?_⟩
        · intro expectedServerVersion newClientVersion edits member
          exact unedited.up _ _ _ ((List.mem_append.mp member).resolve_right (by simp))
        · intro buffer isNew
          rw [← Option.some_inj.mp isNew]
      · intro buffer isNew _
        rw [← Option.some_inj.mp isNew]
    · intro buffer isNew
      rw [← Option.some_inj.mp isNew]
      exact .asking w.up [] false rfl fun _ => ⟨rfl, fun _ _ _ => (nomatch ·)⟩

theorem Inv.reopenRemoteBuffer (inv : w.Inv) (answered : w.unanswered = []) :
    (w.send w.client.reopenRemoteBuffer).Inv := by
  cases isBuffer : w.client.buffer with
  | none =>
    have same : w.send w.client.reopenRemoteBuffer = w := by
      unfold send Client.reopenRemoteBuffer
      rw [isBuffer]
      dsimp only
      rw [append_nil]
    rw [same]
    exact inv
  | some buffer =>
    have isNext : w.send w.client.reopenRemoteBuffer = { w with up := w.up ++ [.openBuffer buffer.fileId true] } := by
      unfold send Client.reopenRemoteBuffer
      rw [isBuffer]
    rw [isNext]
    refine ⟨?_, ?_, ?_⟩
    · refine inv.bounded.client (Nat.le_refl _) ?_ (fun _ => id) (fun _ => .inl) fun _ => .inl
      intro message member
      refine (List.mem_append.mp member).imp_right fun new => ?_
      rw [List.mem_singleton.mp new]
      exact trivial
    · refine inv.settled.client id (single_of_asked answered) ?_ inv.settled.unloaded
      intro unedited _
      refine ⟨?_, unedited.deallocated, unedited.buffer⟩
      intro expectedServerVersion newClientVersion edits member
      exact unedited.up _ _ _ ((List.mem_append.mp member).resolve_right (by simp))
    · intro same isSame
      have sameId : buffer = same := Option.some_inj.mp (isBuffer.symm.trans isSame)
      rw [sameId]
      exact .asking w.up [] true rfl fun unforced => by cases unforced

theorem Inv.dropBuffer (inv : w.Inv) : ({ w with client := w.client.dropBuffer } : Session).Inv := by
  refine ⟨?_, ?_, fun _ => (nomatch ·)⟩
  · refine inv.bounded.client (Nat.le_refl _) (fun _ => .inl) (fun _ => id) ?_ fun _ => (nomatch ·)
    intro batch member
    refine (List.mem_append.mp member).imp_right fun new => ?_
    obtain ⟨buffer, isBuffer, isBatch⟩ := Option.bind_eq_some_iff.mp (Option.mem_toList.mp new)
    exact (inv.bounded.buffer buffer isBuffer).batch batch isBatch
  · refine inv.settled.client id inv.settled.single ?_ fun _ => (nomatch ·)
    intro unedited _
    refine ⟨unedited.up, ?_, fun _ => (nomatch ·)⟩
    unfold Client.dropBuffer
    rw [unedited.deallocated]
    cases isBuffer : w.client.buffer with
    | none => rfl
    | some buffer =>
      have none := inv.settled.unloaded buffer isBuffer (unedited.buffer buffer isBuffer)
      show [] ++ buffer.pendingBatch.toList = []
      rw [none]
      rfl

theorem Inv.deallocated (inv : w.Inv) {deallocated : List PendingEditBatch} {more : List ClientMessage}
    (left : ∀ batch ∈ deallocated, batch ∈ w.client.deallocated) (closed : w.client.buffer = none ∨ more = [])
    (sent : ∀ message ∈ more, message.Before w.given) (unasked : more.flatMap ClientMessage.opens = [])
    (unedited : w.Unedited → more = []) :
    ({ w with client := { w.client with deallocated := deallocated }, up := w.up ++ more } : Session).Inv := by
  have answered : ({ w with client := { w.client with deallocated := deallocated }, up := w.up ++ more } : Session).unanswered =
      w.unanswered := by
    unfold unanswered
    rw [flatMap_append, unasked, append_nil]
  refine ⟨?_, ?_, ?_⟩
  · refine inv.bounded.client (Nat.le_refl _) ?_ (fun _ => id) (fun batch member => .inl (left batch member)) fun _ => .inl
    exact fun message member => (List.mem_append.mp member).imp_right (sent message)
  · refine inv.settled.client id (answered ▸ inv.settled.single) ?_ inv.settled.unloaded
    intro early _
    refine ⟨?_, ?_, early.buffer⟩
    · rw [unedited early, append_nil]
      exact early.up
    · have old := early.deallocated
      exact List.eq_nil_iff_forall_not_mem.mpr fun batch member => by
        have isOld := left batch member
        rw [old] at isOld
        cases isOld
  · intro buffer isBuffer
    have nothing : more = [] := by
      rcases closed with none | nothing
      · have isNone := none.symm.trans isBuffer
        cases isNone
      · exact nothing
    rw [nothing, append_nil]
    cases inv.phase buffer isBuffer with
    | reported reported quiet => exact .reported reported quiet
    | synced clock isClock server known synced quiet => exact .synced clock isClock server known synced quiet
    | asking before after force isUp unforced => exact .asking before after force isUp unforced
    | waiting waits => exact .waiting waits
    | failed e fails => exact .failed e fails
    | answered before after content serverVersion isDown server known synced older =>
      exact .answered before after content serverVersion isDown server known synced older

theorem mem_outgoing {serverVersion : ℕ} {batch : Option PendingEditBatch} {sent : ℕ × List CharOffsetEdit}
    (member : sent ∈ outgoing serverVersion up batch) : .bufferEdit serverVersion sent.1 sent.2 ∈ up ∨
      ∃ pending, batch = some pending ∧ sent = (pending.latestClientVersion, pending.edits) := by
  rcases List.mem_append.mp member with isUp | isBatch
  · obtain ⟨message, isMessage, isLive⟩ := List.mem_flatMap.mp isUp
    rw [mem_live.mp isLive] at isMessage
    exact .inl isMessage
  · obtain ⟨pending, isPending, same⟩ := Option.map_eq_some_iff.mp (Option.mem_toList.mp isBatch)
    exact .inr ⟨pending, isPending, same.symm⟩

theorem Inv.edit (inv : w.Inv) (first : CharOffsetEdit) (rest : List CharOffsetEdit) :
    ({ w with client := w.client.edit (first :: rest) } : Session).Inv := by
  cases isBuffer : w.client.buffer with
  | none =>
    have same : w.client.edit (first :: rest) = w.client := by
      unfold Client.edit
      rw [isBuffer]
    rw [same]
    exact inv
  | some buffer =>
    have bounds := inv.bounded.buffer buffer isBuffer
    cases isClock : buffer.syncClock with
    | none =>
      have isNext : w.client.edit (first :: rest) =
          w.client.withBuffer { buffer with text := applySequentially (first :: rest) buffer.text } := by
        unfold Client.edit
        rw [isBuffer]
        dsimp only
        rw [isClock]
      have noBatch := inv.settled.unloaded buffer isBuffer isClock
      rw [isNext]
      refine ⟨?_, ?_, ?_⟩
      · refine inv.bounded.client (Nat.le_refl _) (fun _ => .inl) (fun _ => id) (fun _ => .inl) ?_
        intro later isLater
        rw [← Option.some_inj.mp isLater]
        exact .inr ⟨bounds.clock, bounds.batch⟩
      · refine inv.settled.client id inv.settled.single ?_ ?_
        · intro unedited _
          refine ⟨unedited.up, unedited.deallocated, ?_⟩
          intro later isLater
          rw [← Option.some_inj.mp isLater]
          exact isClock
        · intro later isLater _
          rw [← Option.some_inj.mp isLater]
          exact noBatch
      · intro later isLater
        rw [← Option.some_inj.mp isLater]
        cases inv.phase buffer isBuffer with
        | reported reported quiet => exact .reported reported quiet
        | synced clock isLoaded =>
          rw [isClock] at isLoaded
          cases isLoaded
        | asking before after force isUp unforced => exact .asking before after force isUp unforced
        | waiting waits => exact .waiting waits
        | failed e fails => exact .failed e fails
        | answered before after content serverVersion isDown server known synced older =>
          exact .answered before after content serverVersion isDown server known synced older
    | some clock =>
      let version := w.client.nextVersion
      let batch := PendingEditBatch.extend buffer.pendingBatch clock.serverVersion version (first :: rest)
      let edited : RemoteBuffer := { buffer with
        text := applySequentially (first :: rest) buffer.text
        syncClock := some { clock with clientVersion := version }
        pendingBatch := some batch }
      have isNext : w.client.edit (first :: rest) = { w.client with nextVersion := version + 1, buffer := some edited } := by
        unfold Client.edit
        rw [isBuffer]
        dsimp only
        rw [isClock]
        rfl
      have clockBefore := bounds.clock clock isClock
      have batchBefore : ∀ bound, clock.serverVersion < bound →
          (∀ pending, buffer.pendingBatch = some pending → pending.expectedServerVersion < bound) →
          batch.expectedServerVersion < bound := by
        intro bound isClock isPending
        show (buffer.pendingBatch.getD ⟨clock.serverVersion, [], version⟩).expectedServerVersion < bound
        cases pending : buffer.pendingBatch with
        | none => exact isClock
        | some old => exact isPending old pending
      rw [isNext]
      refine ⟨?_, ?_, ?_⟩
      · refine inv.bounded.client (Nat.le_succ _) (fun _ => .inl) (fun _ => id) (fun _ => .inl) ?_
        intro later isLater
        rw [← Option.some_inj.mp isLater]
        refine .inr ⟨?_, ?_⟩
        · intro later isLater
          rw [← Option.some_inj.mp isLater]
          exact ⟨clockBefore.1, Nat.lt_succ_self _⟩
        · intro later isLater
          rw [← Option.some_inj.mp isLater]
          exact ⟨batchBefore _ clockBefore.1 fun pending isPending => (bounds.batch pending isPending).1, Nat.lt_succ_self _⟩
      · refine inv.settled.client id inv.settled.single ?_ ?_
        · intro unedited _
          rw [unedited.buffer buffer isBuffer] at isClock
          cases isClock
        · intro later isLater unloaded
          rw [← Option.some_inj.mp isLater] at unloaded
          cases unloaded
      · intro later isLater
        rw [← Option.some_inj.mp isLater]
        cases inv.phase buffer isBuffer with
        | reported reported quiet => exact .reported reported quiet
        | synced clock' isClock' server known synced quiet =>
          rw [← Option.some_inj.mp (isClock.symm.trans isClock')] at synced
          refine .synced _ rfl server known (synced.edit (cons_ne_nil _ _) ?_ ?_) quiet
          · intro push member
            exact (inv.bounded.down _ (mem_pushes.mp member)).2
          · intro made member
            rcases List.mem_cons.mp member with rfl | member
            · exact (inv.bounded.replica server known).2
            · obtain ⟨sent, isSent, rfl⟩ := List.mem_map.mp member
              rcases mem_outgoing isSent with isUp | ⟨pending, isPending, rfl⟩
              · exact (inv.bounded.up _ isUp).2
              · exact (bounds.batch pending isPending).2
        | asking before after force isUp unforced =>
          refine .asking before after force isUp fun isUnforced => ?_
          rw [(unforced isUnforced).1] at isClock
          cases isClock
        | waiting waits => exact .waiting waits
        | failed e fails => exact .failed e fails
        | answered before after content serverVersion isDown server known synced older =>
          refine .answered before after content serverVersion isDown server known (synced.mono (Nat.le_succ _)) ?_
          obtain ⟨isOlder, oldBatch, oldPushes⟩ := older clock isClock
          intro later isLater
          rw [← Option.some_inj.mp isLater]
          refine ⟨isOlder, fun pending isPending => ?_, oldPushes⟩
          rw [← Option.some_inj.mp isPending]
          exact batchBefore _ isOlder oldBatch

theorem opens_flush (batch : PendingEditBatch) : batch.flush.flatMap ClientMessage.opens = [] := by
  unfold PendingEditBatch.flush
  split_ifs <;> rfl

variable {batch : PendingEditBatch}

theorem PendingEditBatch.Before.flush {given : Given} (before : batch.Before given) :
    ∀ message ∈ batch.flush, message.Before given := by
  unfold PendingEditBatch.flush
  split_ifs
  · exact fun _ => (nomatch ·)
  · intro message member
    rw [List.mem_singleton.mp member]
    exact before

theorem mem_flush {expectedServerVersion newClientVersion : ℕ} {edits : List CharOffsetEdit}
    (member : .bufferEdit expectedServerVersion newClientVersion edits ∈ batch.flush) :
    expectedServerVersion = batch.expectedServerVersion ∧ newClientVersion = batch.latestClientVersion := by
  unfold PendingEditBatch.flush at member
  split_ifs at member
  · cases member
  · have same := List.mem_singleton.mp member
    injection same with isServer isClient
    exact ⟨isServer, isClient⟩

theorem Inv.flush (inv : w.Inv) : (w.send w.client.flush).Inv := by
  have kept : w.client.flush = ([], w.client) → (w.send w.client.flush).Inv := by
    intro same
    have isSame : w.send w.client.flush = w := by
      unfold send
      rw [same]
      dsimp only
      rw [append_nil]
    rw [isSame]
    exact inv
  cases isBuffer : w.client.buffer with
  | none =>
    refine kept ?_
    unfold Client.flush
    rw [isBuffer]
  | some buffer =>
    cases isBatch : buffer.pendingBatch with
    | none =>
      refine kept ?_
      unfold Client.flush
      rw [isBuffer]
      dsimp only
      rw [isBatch]
    | some batch =>
      have isNext : w.send w.client.flush =
          { w with client := w.client.withBuffer { buffer with pendingBatch := none }, up := w.up ++ batch.flush } := by
        unfold send Client.flush
        rw [isBuffer]
        dsimp only
        rw [isBatch]
      have bounds := inv.bounded.buffer buffer isBuffer
      have batchBefore := bounds.batch batch isBatch
      have loaded : ∃ clock, buffer.syncClock = some clock := by
        cases isClock : buffer.syncClock with
        | none =>
          have none := inv.settled.unloaded buffer isBuffer isClock
          rw [isBatch] at none
          cases none
        | some clock => exact ⟨clock, rfl⟩
      obtain ⟨clock, isClock⟩ := loaded
      have answered : ({ w with client := w.client.withBuffer { buffer with pendingBatch := none }, up := w.up ++ batch.flush } :
          Session).unanswered = w.unanswered := by
        unfold unanswered
        rw [flatMap_append, opens_flush, append_nil]
      rw [isNext]
      refine ⟨?_, ?_, ?_⟩
      · refine inv.bounded.client (Nat.le_refl _) ?_ (fun _ => id) (fun _ => .inl) ?_
        · intro message member
          exact (List.mem_append.mp member).imp_right (PendingEditBatch.Before.flush batchBefore message)
        · intro later isLater
          rw [← Option.some_inj.mp isLater]
          exact .inr ⟨bounds.clock, fun _ => (nomatch ·)⟩
      · refine inv.settled.client id (answered ▸ inv.settled.single) ?_ ?_
        · intro unedited _
          rw [unedited.buffer buffer isBuffer] at isClock
          cases isClock
        · intro later isLater _
          rw [← Option.some_inj.mp isLater]
      · intro later isLater
        rw [← Option.some_inj.mp isLater]
        cases inv.phase buffer isBuffer with
        | reported reported quiet => exact .reported reported (answered.trans quiet)
        | synced clock' isClock' server known synced quiet =>
          rw [isBatch] at synced
          exact .synced clock' isClock' server known synced.flush (answered.trans quiet)
        | asking before after force isUp unforced =>
          refine .asking before (after ++ batch.flush) force ?_ fun isUnforced => ?_
          · show w.up ++ _ = _
            rw [isUp, append_assoc, cons_append]
          · rw [(unforced isUnforced).1] at isClock
            cases isClock
        | waiting waits => exact .waiting waits
        | failed e fails => exact .failed e fails
        | answered before after content serverVersion isDown server known synced older =>
          obtain ⟨isOlder, oldBatch, oldPushes⟩ := older clock isClock
          refine .answered before after content serverVersion isDown server known (synced.append_stale ?_) ?_
          · intro expectedServerVersion newClientVersion edits member
            obtain ⟨isServer, isClient⟩ := mem_flush member
            rw [isServer, isClient]
            exact ⟨oldBatch batch isBatch, batchBefore.2⟩
          · intro later isLater
            rw [← Option.some_inj.mp (isClock.symm.trans isLater)]
            exact ⟨isOlder, fun _ => (nomatch ·), oldPushes⟩

theorem Inv.append_saveBuffer (inv : w.Inv) (requestId : ℕ) : ({ w with up := w.up ++ [.saveBuffer requestId] } : Session).Inv := by
  have answered : ({ w with up := w.up ++ [.saveBuffer requestId] } : Session).unanswered = w.unanswered := by
    unfold unanswered
    rw [flatMap_append]
    show w.up.flatMap _ ++ [] ++ _ ++ _ = _
    rw [append_nil]
  refine ⟨?_, ?_, ?_⟩
  · refine inv.bounded.client (Nat.le_refl _) ?_ (fun _ => id) (fun _ => .inl) fun _ => .inl
    intro message member
    refine (List.mem_append.mp member).imp_right fun new => ?_
    rw [List.mem_singleton.mp new]
    exact trivial
  · refine inv.settled.client id (answered ▸ inv.settled.single) ?_ inv.settled.unloaded
    intro unedited _
    refine ⟨?_, unedited.deallocated, unedited.buffer⟩
    intro expectedServerVersion newClientVersion edits member
    exact unedited.up _ _ _ ((List.mem_append.mp member).resolve_right (by simp))
  · have stale : ∀ {client batch since down server}, Synced client batch since w.up down server w.rejected →
        Synced client batch since (w.up ++ [.saveBuffer requestId]) down server w.rejected :=
      fun synced => synced.append_stale (by simp)
    intro buffer isBuffer
    cases inv.phase buffer isBuffer with
    | reported reported quiet => exact .reported reported (answered.trans quiet)
    | synced clock isClock server known synced quiet =>
      exact .synced clock isClock server known (stale synced) (answered.trans quiet)
    | asking before after force isUp unforced =>
      refine .asking before (after ++ [.saveBuffer requestId]) force ?_ fun isUnforced => ?_
      · rw [isUp, append_assoc, cons_append]
      · obtain ⟨unloaded, unsent⟩ := unforced isUnforced
        refine ⟨unloaded, fun expectedServerVersion newClientVersion edits member =>
          unsent expectedServerVersion newClientVersion edits ?_⟩
        exact (List.mem_append.mp member).resolve_right (by simp)
    | waiting waits => exact .waiting waits
    | failed e fails => exact .failed e fails
    | answered before after content serverVersion isDown server known synced older =>
      exact .answered before after content serverVersion isDown server known (stale synced) older

theorem Inv.save (inv : w.Inv) : (w.send w.client.save).Inv := by
  cases isBuffer : w.client.buffer with
  | none =>
    have same : w.send w.client.save = w := by
      unfold send Client.save
      rw [isBuffer]
      dsimp only
      rw [append_nil]
    rw [same]
    exact inv
  | some buffer =>
    have isNext : w.send w.client.save =
        { w.send w.client.flush with up := (w.send w.client.flush).up ++ [.saveBuffer buffer.fileId] } := by
      unfold send Client.save
      rw [isBuffer]
      dsimp only
      rw [append_assoc]
    rw [isNext]
    exact inv.flush.append_saveBuffer buffer.fileId

section Receive

variable {message : ServerMessage}

/-- A message that is no response keeps what the client knows of its buffer, or moves it to the version of a push. -/
structure Takes (message : ServerMessage) (buffer later : RemoteBuffer) : Prop where
  fileId : later.fileId = buffer.fileId
  unloaded : later.syncClock = none → buffer.syncClock = none
  clock : ∀ clock, later.syncClock = some clock → ∃ old, buffer.syncClock = some old ∧
    clock.clientVersion = old.clientVersion ∧ (clock.serverVersion = old.serverVersion ∨
      ∃ expectedClientVersion edits, message = .bufferUpdatedPush clock.serverVersion expectedClientVersion edits)
  batch : ∀ batch, later.pendingBatch = some batch → buffer.pendingBatch = some batch

theorem Takes.refl (message : ServerMessage) (buffer : RemoteBuffer) : Takes message buffer buffer :=
  ⟨rfl, id, fun clock isClock => ⟨clock, isClock, rfl, .inl rfl⟩, fun _ => id⟩

theorem Takes.discard (message : ServerMessage) (buffer : RemoteBuffer) :
    Takes message buffer { buffer with pendingBatch := none } :=
  { Takes.refl message buffer with batch := fun _ => (nomatch ·) }

theorem receive_eq (isDown : w.down = message :: down) :
    w.receive = { w with client := w.client.receive message, down := down } := by
  unfold Session.receive
  rw [isDown]

theorem Inv.takes (inv : w.Inv) (isDown : w.down = message :: down) (silent : ServerMessage.opened message = [])
    (nextVersion : c.nextVersion = w.client.nextVersion) (deallocated : c.deallocated = w.client.deallocated)
    (reported : w.client.reported = true → c.reported = true)
    (takes : ∀ later, c.buffer = some later → ∃ buffer, w.client.buffer = some buffer ∧ Takes message buffer later ∧
      ∀ clock server, buffer.syncClock = some clock →
        Synced ⟨buffer.text, clock⟩ buffer.pendingBatch buffer.since w.up (message :: down) server w.rejected →
        c.reported = true ∨ ∃ clock, later.syncClock = some clock ∧
          Synced ⟨later.text, clock⟩ later.pendingBatch later.since w.up down server w.rejected) :
    ({ w with client := c, down := down } : Session).Inv := by
  have member : message ∈ w.down := by
    rw [isDown]
    exact mem_cons_self
  have opened : down.flatMap ServerMessage.opened = w.down.flatMap ServerMessage.opened := by
    rw [isDown, flatMap_cons, silent]
    rfl
  have answered : ({ w with client := c, down := down } : Session).unanswered = w.unanswered := by
    unfold unanswered
    rw [opened]
  refine ⟨?_, ?_, ?_⟩
  · refine inv.bounded.client nextVersion.ge (fun _ => .inl) ?_ ?_ ?_
    · rw [isDown]
      exact fun _ => mem_cons_of_mem _
    · rw [deallocated]
      exact fun _ => .inl
    · intro later isLater
      obtain ⟨buffer, isBuffer, took, -⟩ := takes later isLater
      have bounds := inv.bounded.buffer buffer isBuffer
      refine .inr ⟨?_, ?_⟩
      · intro clock isClock
        obtain ⟨old, isOld, sameClient, server⟩ := took.clock clock isClock
        have before := bounds.clock old isOld
        refine ⟨?_, by rw [sameClient, nextVersion]; exact before.2⟩
        rcases server with same | ⟨expectedClientVersion, edits, rfl⟩
        · rw [same]
          exact before.1
        · exact (inv.bounded.down _ member).1
      · intro batch isBatch
        rw [nextVersion]
        exact bounds.batch batch (took.batch batch isBatch)
  · refine inv.settled.client (fun nothing => opened.trans nothing) (answered ▸ inv.settled.single) ?_ ?_
    · intro unedited _
      refine ⟨unedited.up, deallocated.trans unedited.deallocated, fun later isLater => ?_⟩
      obtain ⟨buffer, isBuffer, took, -⟩ := takes later isLater
      cases isClock : later.syncClock with
      | none => rfl
      | some clock =>
        obtain ⟨old, isOld, -⟩ := took.clock clock isClock
        rw [unedited.buffer buffer isBuffer] at isOld
        cases isOld
    · intro later isLater unloaded
      obtain ⟨buffer, isBuffer, took, -⟩ := takes later isLater
      have none := inv.settled.unloaded buffer isBuffer (took.unloaded unloaded)
      cases isBatch : later.pendingBatch with
      | none => rfl
      | some batch =>
        rw [took.batch batch isBatch] at none
        cases none
  · intro later isLater
    obtain ⟨buffer, isBuffer, took, outcome⟩ := takes later isLater
    cases inv.phase buffer isBuffer with
    | reported isReported quiet => exact .reported (reported isReported) (answered.trans quiet)
    | synced clock isClock server known synced quiet =>
      rw [isDown] at synced
      rcases outcome clock server isClock synced with isReported | ⟨clock', isClock', synced'⟩
      · exact .reported isReported (answered.trans quiet)
      · exact .synced clock' isClock' server known synced' (answered.trans quiet)
    | asking before after force isUp unforced =>
      refine .asking before after force (by rw [took.fileId]; exact isUp) fun isUnforced => ?_
      obtain ⟨unloaded, unsent⟩ := unforced isUnforced
      refine ⟨?_, unsent⟩
      cases isClock : later.syncClock with
      | none => rfl
      | some clock =>
        obtain ⟨old, isOld, -⟩ := took.clock clock isClock
        rw [unloaded] at isOld
        cases isOld
    | waiting waits => exact .waiting (by rw [took.fileId]; exact waits)
    | failed e fails =>
      refine .failed e ?_
      rw [took.fileId]
      rw [isDown] at fails
      refine (List.mem_cons.mp fails).resolve_left fun same => ?_
      rw [← same] at silent
      cases silent
    | answered before after content serverVersion isAnswered server known synced older =>
      rw [isDown] at isAnswered
      cases before with
      | nil =>
        rw [nil_append, List.cons.injEq] at isAnswered
        rw [isAnswered.1] at silent
        cases silent
      | cons first before =>
        rw [cons_append, List.cons.injEq] at isAnswered
        obtain ⟨rfl, isLeft⟩ := isAnswered
        refine .answered before after content serverVersion ?_ server known ?_ ?_
        · rw [took.fileId]
          exact isLeft
        · rw [nextVersion]
          exact synced
        · intro clock isClock
          obtain ⟨old, isOld, -, version⟩ := took.clock clock isClock
          obtain ⟨isOlder, oldBatch, oldPushes⟩ := older old isOld
          refine ⟨?_, fun batch isBatch => oldBatch batch (took.batch batch isBatch), fun push isPush => ?_⟩
          · rcases version with same | ⟨expectedClientVersion, edits, rfl⟩
            · rw [same]
              exact isOlder
            · exact oldPushes ⟨clock.serverVersion, expectedClientVersion, edits⟩ (mem_pushes.mpr mem_cons_self)
          · exact oldPushes push (mem_pushes.mpr (mem_cons_of_mem _ (mem_pushes.mp isPush)))

theorem Inv.takePush (inv : w.Inv) {newServerVersion expectedClientVersion : ℕ} {edits : List CharOffsetEdit}
    (isDown : w.down = .bufferUpdatedPush newServerVersion expectedClientVersion edits :: down) :
    ({ w with
      client := w.client.handleBufferUpdatedPush newServerVersion expectedClientVersion edits
      down := down } : Session).Inv := by
  have kept : (∀ buffer clock server, w.client.buffer = some buffer → buffer.syncClock = some clock →
        ¬ Synced ⟨buffer.text, clock⟩ buffer.pendingBatch buffer.since w.up
          (.bufferUpdatedPush newServerVersion expectedClientVersion edits :: down) server w.rejected) →
      ({ w with down := down } : Session).Inv := by
    intro never
    refine inv.takes isDown rfl rfl rfl id fun buffer isBuffer => ⟨buffer, isBuffer, .refl _ _, ?_⟩
    exact fun clock server isClock synced => absurd synced (never buffer clock server isBuffer isClock)
  unfold Client.handleBufferUpdatedPush
  cases isBuffer : w.client.buffer with
  | none =>
    refine kept fun buffer clock server isSome => ?_
    rw [isBuffer] at isSome
    cases isSome
  | some buffer =>
    dsimp only
    cases isClock : buffer.syncClock with
    | none =>
      refine kept fun other clock server isSome isLoaded => ?_
      rw [← Option.some_inj.mp (isBuffer.symm.trans isSome), isClock] at isLoaded
      cases isLoaded
    | some clock =>
      dsimp only
      by_cases matched : clock.clientVersion = expectedClientVersion
      · rw [if_pos (by simp [SyncClock.serverPushMatches, matched])]
        refine inv.takes isDown rfl rfl rfl id fun later isLater => ⟨buffer, isBuffer, ?_, ?_⟩
        · rw [← Option.some_inj.mp isLater]
          refine ⟨rfl, fun _ => by contradiction, fun later isLater => ⟨clock, isClock, ?_⟩, fun _ => id⟩
          rw [← Option.some_inj.mp isLater]
          exact ⟨rfl, .inr ⟨expectedClientVersion, edits, rfl⟩⟩
        · intro other server isOther synced
          rw [← Option.some_inj.mp (isClock.symm.trans isOther)] at synced
          rw [← Option.some_inj.mp isLater]
          refine .inr ⟨_, rfl, ?_⟩
          exact @Synced.receive _ _ _ _ _ _ _ ⟨newServerVersion, expectedClientVersion, edits⟩ synced matched
      · rw [if_neg (by simpa [SyncClock.serverPushMatches] using matched)]
        split_ifs with stale
        · refine kept fun other otherClock server isSome isOther synced => ?_
          rw [← Option.some_inj.mp (isBuffer.symm.trans isSome)] at isOther
          rw [← Option.some_inj.mp (isClock.symm.trans isOther)] at synced
          have newer := synced.newer
          rw [show pushes (.bufferUpdatedPush newServerVersion expectedClientVersion edits :: down) =
            ⟨newServerVersion, expectedClientVersion, edits⟩ :: pushes down from rfl, map_cons, pairwise_cons] at newer
          have later : clock.serverVersion < newServerVersion := newer.1 _ mem_cons_self
          exact absurd stale (Nat.not_le_of_lt later)
        · refine inv.takes isDown rfl rfl rfl (fun _ => rfl) fun later isLater => ⟨buffer, isBuffer, ?_, fun _ _ _ _ => .inl rfl⟩
          rw [← Option.some_inj.mp isLater, ← isClock]
          exact .discard _ _

theorem Inv.takeConflict (inv : w.Inv) (isDown : w.down = .bufferConflictDetected :: down) :
    ({ w with client := w.client.handleBufferConflictDetected, down := down } : Session).Inv := by
  unfold Client.handleBufferConflictDetected
  cases isBuffer : w.client.buffer with
  | none =>
    refine inv.takes isDown rfl rfl rfl id fun buffer isSome => ?_
    rw [isBuffer] at isSome
    cases isSome
  | some buffer =>
    refine inv.takes isDown rfl rfl rfl (fun _ => rfl) fun later isLater => ⟨buffer, isBuffer, ?_, fun _ _ _ _ => .inl rfl⟩
    rw [← Option.some_inj.mp isLater]
    exact .discard _ _

theorem Inv.takePlain (inv : w.Inv) (isDown : w.down = message :: down) (silent : ServerMessage.opened message = [])
    (nothing : message.push = []) (settles : message ≠ .bufferConflictDetected) : ({ w with down := down } : Session).Inv := by
  refine inv.takes isDown silent rfl rfl id fun buffer isBuffer => ⟨buffer, isBuffer, .refl _ _, ?_⟩
  exact fun clock server isClock synced => .inr ⟨clock, isClock, synced.skip nothing settles⟩

variable {result : Except Str OpenBufferSuccess}

theorem Phase.answers {requestId : ℕ} (phase : w.Phase buffer) (settled : w.Settled)
    (isDown : w.down = .openBufferResponse requestId result :: down) :
    requestId = buffer.fileId ∧ ((∃ e, result = .error e) ∨
      ∃ content serverVersion server, result = .ok ⟨content, serverVersion⟩ ∧ w.daemon.replica? = some server ∧
        Synced ⟨content, ⟨serverVersion, 0⟩⟩ none w.client.nextVersion w.up down server w.rejected) := by
  have single := settled.single
  rw [length_unanswered, isDown, flatMap_cons, length_append] at single
  have one : (ServerMessage.opened (.openBufferResponse requestId result)).length = 1 := rfl
  have nothing : down.flatMap ServerMessage.opened = [] := eq_nil_of_length_eq_zero (by omega)
  have nobody : w.opens = [] := eq_nil_of_length_eq_zero (by omega)
  have unasked : w.up.flatMap ClientMessage.opens = [] := eq_nil_of_length_eq_zero (by omega)
  have asks : w.unanswered ≠ [] := by
    intro answered
    have none := congrArg List.length answered
    rw [length_unanswered, isDown, flatMap_cons, length_append, length_nil] at none
    omega
  cases phase with
  | reported _ quiet => exact absurd quiet asks
  | synced _ _ _ _ _ quiet => exact absurd quiet asks
  | asking before after force isUp =>
    rw [isUp] at unasked
    simp [ClientMessage.opens] at unasked
  | waiting waits =>
    rw [nobody] at waits
    cases waits
  | failed e fails =>
    rw [isDown] at fails
    rcases List.mem_cons.mp fails with same | later
    · injection same with sameId sameResult
      exact ⟨sameId.symm, .inl ⟨e, sameResult.symm⟩⟩
    · have one := opened_pos (w := { w with down := down }) later
      rw [nothing] at one
      exact absurd one (Nat.lt_irrefl 0)
  | answered before after content serverVersion isAnswer server known synced =>
    rw [isDown] at isAnswer
    cases before with
    | nil =>
      rw [nil_append, List.cons.injEq, ServerMessage.openBufferResponse.injEq] at isAnswer
      obtain ⟨⟨sameId, sameResult⟩, rfl⟩ := isAnswer
      exact ⟨sameId, .inr ⟨content, serverVersion, server, sameResult, known, synced⟩⟩
    | cons first before =>
      rw [cons_append, List.cons.injEq] at isAnswer
      rw [isAnswer.2] at nothing
      simp [ServerMessage.opened] at nothing

theorem Inv.takeResponse (inv : w.Inv) {requestId : ℕ} (isDown : w.down = .openBufferResponse requestId result :: down) :
    ({ w with client := w.client.applyOpenBufferResponse requestId result, down := down } : Session).Inv := by
  have single := inv.settled.single
  rw [length_unanswered, isDown, flatMap_cons, length_append] at single
  have one : (ServerMessage.opened (.openBufferResponse requestId result)).length = 1 := rfl
  have answered : ∀ c, ({ w with client := c, down := down } : Session).unanswered = [] := by
    intro c
    apply eq_nil_of_length_eq_zero
    rw [length_unanswered]
    show _ + w.opens.length + (down.flatMap _).length = 0
    show (w.up.flatMap _).length + _ + _ = 0
    omega
  have left : ∀ message ∈ down, message ∈ w.down := by
    rw [isDown]
    exact fun _ => mem_cons_of_mem _
  have loaded : w.down.flatMap ServerMessage.opened ≠ [] := by
    rw [isDown]
    exact cons_ne_nil _ _
  have settled : ∀ c : Client, (∀ buffer, c.buffer = some buffer → buffer.syncClock = none → buffer.pendingBatch = none) →
      ({ w with client := c, down := down } : Session).Settled := by
    intro c unloaded
    refine inv.settled.client (fun nothing => absurd nothing loaded) ?_ (fun _ nothing => absurd nothing loaded) unloaded
    show ({ w with client := c, down := down } : Session).unanswered.length ≤ 1
    rw [answered c]
    exact Nat.zero_le _
  unfold Client.applyOpenBufferResponse
  cases isBuffer : w.client.buffer with
  | none =>
    refine ⟨inv.bounded.client (Nat.le_refl _) (fun _ => .inl) left (fun _ => .inl) fun _ => .inl, settled _ inv.settled.unloaded,
      ?_⟩
    intro buffer isSome
    have isNone := isBuffer.symm.trans isSome
    cases isNone
  | some buffer =>
    dsimp only
    obtain ⟨sameId, outcome⟩ := (inv.phase buffer isBuffer).answers inv.settled isDown
    rw [if_pos sameId.symm]
    rcases outcome with ⟨e, rfl⟩ | ⟨content, serverVersion, server, rfl, known, synced⟩
    · refine ⟨inv.bounded.client (Nat.le_refl _) (fun _ => .inl) left (fun _ => .inl) ?_, settled _ ?_, ?_⟩
      · exact fun _ isSome => .inl (isBuffer.trans isSome)
      · exact fun other isSome => inv.settled.unloaded other (isBuffer.trans isSome)
      · exact fun _ _ => .reported rfl (answered _)
    · have positive := inv.bounded.positive
      have isAnswer : .openBufferResponse requestId (.ok ⟨content, serverVersion⟩) ∈ w.down := by
        rw [isDown]
        exact mem_cons_self
      refine ⟨inv.bounded.client (Nat.le_refl _) (fun _ => .inl) left (fun _ => .inl) ?_, settled _ ?_, ?_⟩
      · intro later isLater
        rw [← Option.some_inj.mp isLater]
        refine .inr ⟨fun clock isClock => ?_, fun _ => (nomatch ·)⟩
        rw [← Option.some_inj.mp isClock]
        exact ⟨inv.bounded.down _ isAnswer, positive.2⟩
      · intro later isLater _
        rw [← Option.some_inj.mp isLater]
      · intro later isLater
        rw [← Option.some_inj.mp isLater]
        exact .synced _ rfl server known synced (answered _)

theorem Inv.receive (inv : w.Inv) : w.receive.Inv := by
  cases isDown : w.down with
  | nil =>
    have same : w.receive = w := by
      unfold Session.receive
      rw [isDown]
    rw [same]
    exact inv
  | cons message down =>
    rw [receive_eq isDown]
    cases message with
    | openBufferResponse requestId result => exact inv.takeResponse isDown
    | bufferUpdatedPush newServerVersion expectedClientVersion edits => exact inv.takePush isDown
    | bufferConflictDetected => exact inv.takeConflict isDown
    | saveBufferResponse requestId result => exact inv.takePlain isDown rfl rfl (by simp)
    | resolveConflictResponse requestId result => exact inv.takePlain isDown rfl rfl (by simp)

end Receive

theorem Inv.handleMessage (inv : w.Inv) (proper : w.Proper .handleMessage) : w.handleMessage.Inv := by
  cases isUp : w.up with
  | nil =>
    have same : w.handleMessage = w := by
      unfold Session.handleMessage
      rw [isUp]
    rw [same]
    exact inv
  | cons message up =>
    have bounded := inv.bounded.up message (by rw [isUp]; exact mem_cons_self)
    cases message with
    | openBuffer requestId force =>
      refine inv.handleOpen isUp fun unforced => proper requestId up ?_
      rw [isUp, unforced]
    | bufferEdit expectedServerVersion newClientVersion edits => exact inv.handleEdit isUp
    | saveBuffer requestId => exact inv.handleSave isUp
    | resolveConflict => exact bounded.elim

theorem Inv.step (inv : w.Inv) (action : Action) (proper : w.Proper action) : (w.step textDiff action).Inv := by
  cases action with
  | openRemoteBuffer => exact inv.openRemoteBuffer proper
  | reopenRemoteBuffer => exact inv.reopenRemoteBuffer proper
  | dropBuffer => exact inv.dropBuffer
  | removeDeallocatedBuffers =>
    have same := @Inv.deallocated _ inv [] [] (fun _ => (nomatch ·)) (.inr rfl) (fun _ => (nomatch ·)) rfl
      fun _ => rfl
    rw [append_nil] at same
    exact same
  | flushDeallocated index =>
    show (w.send (w.client.flushDeallocated index)).Inv
    unfold Client.flushDeallocated
    cases found : w.client.deallocated[index]? with
    | none =>
      have same : w.send ([], w.client) = w := by
        unfold send
        rw [append_nil]
      rw [same]
      exact inv
    | some batch =>
      have member := mem_of_getElem? found
      refine inv.deallocated (fun _ => mem_of_mem_eraseIdx) (.inl proper)
        (PendingEditBatch.Before.flush (inv.bounded.deallocated batch member)) (opens_flush batch) fun unedited => ?_
      rw [unedited.deallocated] at member
      cases member
  | edit first rest => exact inv.edit first rest
  | flush => exact inv.flush
  | save => exact inv.save
  | receive => exact inv.receive
  | handleMessage => exact inv.handleMessage proper
  | loadFinished result => exact inv.loadFinished result
  | fileUpdated content => exact inv.still Daemon.still_fileUpdated
  | applyDiffResult =>
    rcases Daemon.applyDiffResult_cases (d := w.daemon) with still | ⟨state, edits, isState, bumps, out⟩
    · exact inv.still still
    · show (w.dispatch (w.daemon.applyDiffResult.1, w.daemon.applyDiffResult.2)).Inv
      rw [out]
      exact inv.bumps bumps isState
  | reloadFinished task result => exact inv.reloadFinished task result
  | writeFinished task result => exact inv.still Daemon.still_writeFinished

theorem inv_new (connId : CodeReview.ConnectionId) : (new connId).Inv where
  bounded := ⟨⟨Nat.one_pos, Nat.one_pos⟩, fun _ => (nomatch ·), fun _ => (nomatch ·), fun _ => (nomatch ·),
    fun _ => (nomatch ·), fun _ => (nomatch ·), fun _ => (nomatch ·)⟩
  settled := ⟨fun _ => (nomatch ·), fun _ => ⟨rfl, rfl, rfl⟩, fun _ => (nomatch ·), Nat.zero_le _, Nat.zero_le _,
    fun _ => ⟨rfl, rfl⟩, fun _ => ⟨fun _ _ _ => (nomatch ·), rfl, fun _ => (nomatch ·)⟩, fun loading => (nomatch loading),
    fun _ => (nomatch ·)⟩
  phase := fun _ => (nomatch ·)

/-- Once nothing is under way the client has what the daemon has. -/
theorem run_converges (connId : CodeReview.ConnectionId) (actions : List Action)
    (proper : Trace.Every (step textDiff) Proper (new connId) actions) :
    (actions.foldl (step textDiff) (new connId)).Converges :=
  converges_of_inv (proper.invariant (fun _ action inv proper => inv.step action proper) (inv_new connId))

def replaceAll (old new : Str) : List CharOffsetEdit := [⟨1, old.length + 1, new⟩]

theorem run_converges_edited : ([.openRemoteBuffer, .handleMessage, .loadFinished (.ok ['a']), .receive, .edit ⟨1, 1, ['b']⟩ [],
    .flush, .handleMessage].foldl (step replaceAll) (new ⟨0⟩)).Converges := by
  refine run_converges ⟨0⟩ _ ⟨rfl, ?_, trivial, trivial, trivial, trivial, ?_, trivial⟩
  · exact fun _ _ _ _ => (nomatch ·)
  · exact fun _ _ isUp => (nomatch isUp)

/-- At any moment the client and the daemon differ by what is under way between them, and no edit has been dropped that was
made since the buffer was loaded, unless a conflict is on its way or was reported. -/
theorem run_differs_by_messages (connId : CodeReview.ConnectionId) (actions : List Action)
    (proper : Trace.Every (step textDiff) Proper (new connId) actions) (buffer : RemoteBuffer) :
    let w := actions.foldl (step textDiff) (new connId)
    w.client.buffer = some buffer → w.unanswered = [] → w.client.reported = false →
      ∃ clock server, buffer.syncClock = some clock ∧ w.daemon.replica? = some server ∧
        (Doomed clock w.down ∨ (∀ version ∈ w.rejected, version < buffer.since) ∧
          (pushes w.down = [] ∧
              (outgoing clock.serverVersion w.up buffer.pendingBatch).foldl Replica.edited server = ⟨buffer.text, clock⟩ ∨
            outgoing clock.serverVersion w.up buffer.pendingBatch = [] ∧
              (pushes w.down).foldl Replica.push ⟨buffer.text, clock⟩ = server)) := by
  intro w isBuffer answered unreported
  have inv : w.Inv := proper.invariant (fun _ action inv proper => inv.step action proper) (inv_new connId)
  obtain ⟨clock, server, isClock, known, synced⟩ := inv.synced isBuffer answered unreported
  refine ⟨clock, server, isClock, known, synced.outcome.imp_right fun aligned => ⟨aligned.rejected, ?_⟩⟩
  exact aligned.meets.imp_right fun meets => ⟨meets.1, meets.2.1⟩

theorem run_differs_by_messages_edited :
    let w := [.openRemoteBuffer, .handleMessage, .loadFinished (.ok ['a']), .receive, .edit ⟨1, 1, ['b']⟩ [], .flush].foldl
      (step replaceAll) (new ⟨0⟩)
    ∃ clock server, some ⟨0, 1⟩ = some clock ∧ w.daemon.replica? = some server ∧
      (Doomed clock w.down ∨ (∀ version ∈ w.rejected, version < 1) ∧
        (pushes w.down = [] ∧ (outgoing clock.serverVersion w.up none).foldl Replica.edited server = ⟨['b', 'a'], clock⟩ ∨
          outgoing clock.serverVersion w.up none = [] ∧ (pushes w.down).foldl Replica.push ⟨['b', 'a'], clock⟩ = server)) := by
  have proper : Trace.Every (step replaceAll) Proper (new ⟨0⟩)
      [.openRemoteBuffer, .handleMessage, .loadFinished (.ok ['a']), .receive, .edit ⟨1, 1, ['b']⟩ [], .flush] :=
    ⟨rfl, fun _ _ _ _ => (nomatch ·), trivial, trivial, trivial, trivial, trivial⟩
  exact run_differs_by_messages ⟨0⟩ _ proper ⟨0, ['b', 'a'], some ⟨0, 1⟩, none, 1⟩ rfl rfl rfl

/-- The buffer is opened again twice at a time. Both requests get the response of the first, and the second of them takes back
an edit of the client that the daemon then applies. -/
def reopenedTwice : List Action :=
  [.openRemoteBuffer, .handleMessage, .loadFinished (.ok ['a']), .receive, .reopenRemoteBuffer, .reopenRemoteBuffer,
    .handleMessage, .handleMessage, .reloadFinished 0 (.ok ['a']), .receive, .edit ⟨1, 1, ['b']⟩ [], .flush, .receive,
    .handleMessage, .reloadFinished 1 (.error [])]

theorem not_converges : ¬ ∀ actions : List Action, (actions.foldl (step replaceAll) (new ⟨0⟩)).Converges := by
  intro converges
  have quiet : (reopenedTwice.foldl (step replaceAll) (new ⟨0⟩)).Quiet ⟨0, ['a'], some ⟨4, 0⟩, none, 2⟩ :=
    ⟨rfl, rfl, rfl, rfl, rfl⟩
  obtain ⟨state, isState, sameText, -⟩ := converges reopenedTwice _ rfl quiet
  have applied : (reopenedTwice.foldl (step replaceAll) (new ⟨0⟩)).daemon.replica? = some ⟨['b', 'a'], ⟨4, 1⟩⟩ := rfl
  unfold Daemon.replica? at applied
  rw [isState] at applied
  have isText := congrArg Replica.text (Option.some_inj.mp applied)
  exact absurd (sameText.trans isText) (by decide)

end Warp.Remote.BufferSync.Session
