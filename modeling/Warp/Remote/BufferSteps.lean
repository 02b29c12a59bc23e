import Warp.Remote.BufferPhases

namespace Warp.Remote.BufferSync.Session

open List

variable {w : Session} {up : List ClientMessage} {message : ClientMessage} {d' : Daemon} {buffer : RemoteBuffer}
  {requestId expectedServerVersion newClientVersion : ℕ} {edits : List CharOffsetEdit}

theorem handleMessage_eq (isUp : w.up = message :: up) : w.handleMessage =
    ({ w with up := up, rejected := w.rejected ++ w.dropped message }).dispatch (w.daemon.handleMessage w.connId message) := by
  unfold handleMessage
  rw [isUp]

theorem dropped_edit : w.dropped (.bufferEdit expectedServerVersion newClientVersion edits) =
    if (w.daemon.applyClientEdit expectedServerVersion newClientVersion edits).2 then [] else [newClientVersion] := rfl

theorem applyClientEdit_synced {server : Replica} (known : w.daemon.replica? = some server)
    (isUp : w.up = .bufferEdit expectedServerVersion newClientVersion edits :: up) :
    ∃ server', (w.daemon.applyClientEdit expectedServerVersion newClientVersion edits).1.replica? = some server' ∧
      server'.clock.serverVersion = server.clock.serverVersion ∧
      (server'.clock.clientVersion = server.clock.clientVersion ∨ server'.clock.clientVersion = newClientVersion) ∧
      ∀ client batch since down, Synced client batch since w.up down server w.rejected →
        Synced client batch since up down server'
          (w.rejected ++ w.dropped (.bufferEdit expectedServerVersion newClientVersion edits)) := by
  rw [dropped_edit]
  by_cases current : server.clock.serverVersion = expectedServerVersion
  · obtain ⟨applied, isEdited⟩ := @Daemon.applyClientEdit_current _ edits _ known newClientVersion
    rw [← current]
    refine ⟨_, isEdited, rfl, .inr rfl, fun client batch since down synced => ?_⟩
    rw [if_pos applied, append_nil]
    rw [isUp] at synced
    exact synced.handle.1 current
  · rw [Daemon.applyClientEdit_stale known current]
    refine ⟨server, known, rfl, .inl rfl, fun client batch since down synced => ?_⟩
    rw [if_neg Bool.false_ne_true]
    rw [isUp] at synced
    exact synced.handle.2 current

theorem Inv.handleEdit (inv : w.Inv) (isUp : w.up = .bufferEdit expectedServerVersion newClientVersion edits :: up) :
    w.handleMessage.Inv := by
  have member : .bufferEdit expectedServerVersion newClientVersion edits ∈ w.up := by
    rw [isUp]
    exact mem_cons_self
  have later : ∀ message ∈ up, message ∈ w.up := by
    rw [isUp]
    exact fun _ => mem_cons_of_mem _
  have edited : w.daemon.replica? ≠ none ∧ w.daemon.loading ≠ true :=
    ⟨fun missing => (inv.settled.unedited (.inl missing)).up _ _ _ member,
      fun loading => (inv.settled.unedited (.inr loading)).up _ _ _ member⟩
  obtain ⟨server, known⟩ := Option.ne_none_iff_exists'.mp edited.1
  obtain ⟨server', known', sameVersion, client, synced⟩ := applyClientEdit_synced known isUp
  have keeps := @Daemon.edits_applyClientEdit w.daemon edits expectedServerVersion newClientVersion
  set d' := (w.daemon.applyClientEdit expectedServerVersion newClientVersion edits).1 with isDaemon
  set rejected := w.rejected ++ w.dropped (.bufferEdit expectedServerVersion newClientVersion edits) with isRejected
  have isNext : w.handleMessage = { w with daemon := d', up := up, rejected := rejected } := by
    rw [handleMessage_eq isUp]
    unfold dispatch Daemon.handleMessage
    rw [filter_nil, map_nil, append_nil]
  have sent := inv.bounded.up _ member
  have answered : ({ w with daemon := d', up := up, rejected := rejected } : Session).unanswered = w.unanswered := by
    unfold unanswered
    rw [isUp]
    show up.flatMap _ ++ (d'.ofKind .openBuffer).map _ ++ _ = _
    rw [keeps.opens]
    rfl
  rw [isNext]
  refine ⟨?_, ?_, ?_⟩
  · refine inv.bounded.daemon rfl keeps.nextVersion ?_ later (fun _ => .inl) ?_
    · intro replica isReplica
      rw [← Option.some_inj.mp (known'.symm.trans isReplica)]
      have before := inv.bounded.replica server known
      have le : w.given.server ≤ d'.nextVersion := keeps.nextVersion
      refine ⟨sameVersion ▸ Nat.lt_of_lt_of_le before.1 le, ?_⟩
      rcases client with same | new
      · rw [same]
        exact before.2
      · rw [new]
        exact sent.2
    · intro version isVersion
      refine (List.mem_append.mp isVersion).imp_right fun new => ?_
      rw [dropped_edit] at new
      split_ifs at new
      · cases new
      · rw [List.mem_singleton.mp new]
        exact sent.2
  · refine inv.settled.daemon rfl rfl keeps ?_ (fun loading => absurd loading edited.2) later rfl answered
    show d'.replica?.isSome = _
    rw [known', known]
    rfl
  · intro buffer isBuffer
    cases inv.phase buffer isBuffer with
    | reported reported quiet => exact .reported reported (answered.trans quiet)
    | synced clock isClock old isOld aligned quiet =>
      rw [← Option.some_inj.mp (known.symm.trans isOld)] at aligned
      exact .synced clock isClock server' known' (synced _ _ _ _ aligned) (answered.trans quiet)
    | asking before after force isAsked unforced =>
      rw [isUp] at isAsked
      cases before with
      | nil => cases isAsked
      | cons first before =>
        rw [cons_append, List.cons.injEq] at isAsked
        exact .asking before after force isAsked.2 unforced
    | waiting waits => exact .waiting ((congrArg _ keeps.opens).trans waits)
    | failed e fails => exact .failed e fails
    | answered before after content serverVersion isDown old isOld aligned older =>
      rw [← Option.some_inj.mp (known.symm.trans isOld)] at aligned
      exact .answered before after content serverVersion isDown server' known' (synced _ _ _ _ aligned) older

theorem Inv.handleSave (inv : w.Inv) (isUp : w.up = .saveBuffer requestId :: up) : w.handleMessage.Inv := by
  have later : ∀ message ∈ up, message ∈ w.up := by
    rw [isUp]
    exact fun _ => mem_cons_of_mem _
  have answered : ({ w with up := up } : Session).unanswered = w.unanswered := by
    unfold unanswered
    rw [isUp]
    rfl
  have taken : ({ w with up := up } : Session).Inv := by
    refine ⟨?_, ?_, ?_⟩
    · exact inv.bounded.daemon rfl (Nat.le_refl _) inv.bounded.replica later (fun _ => .inl) fun _ => .inl
    · exact inv.settled.daemon rfl rfl ⟨rfl, rfl, rfl, rfl, Nat.le_refl _⟩ rfl
        (fun _ replica known zero => ⟨replica, known, zero⟩) later rfl answered
    · have synced : ∀ {client batch since down server}, Synced client batch since w.up down server w.rejected →
          Synced client batch since up down server w.rejected := by
        intro client batch since down server synced
        rw [isUp] at synced
        exact synced.tail (by simp)
      intro buffer isBuffer
      cases inv.phase buffer isBuffer with
      | reported reported quiet => exact .reported reported (answered.trans quiet)
      | synced clock isClock server known aligned quiet =>
        exact .synced clock isClock server known (synced aligned) (answered.trans quiet)
      | asking before after force isAsked unforced =>
        rw [isUp] at isAsked
        cases before with
        | nil => cases isAsked
        | cons first before =>
          rw [cons_append, List.cons.injEq] at isAsked
          exact .asking before after force isAsked.2 unforced
      | waiting waits => exact .waiting waits
      | failed e fails => exact .failed e fails
      | answered before after content serverVersion isDown server known aligned older =>
        exact .answered before after content serverVersion isDown server known (synced aligned) older
  rw [handleMessage_eq isUp]
  unfold dropped
  rw [append_nil]
  exact taken.still Daemon.still_handleSaveBuffer

section Open

variable {forceReload : Bool} {more : List ServerMessage} (isUp : w.up = .openBuffer requestId forceReload :: up)

include isUp

theorem Settled.alone (settled : w.Settled) :
    up.flatMap ClientMessage.opens = [] ∧ w.opens = [] ∧ w.down.flatMap ServerMessage.opened = [] := by
  have single := settled.single
  rw [length_unanswered, isUp, flatMap_cons, length_append] at single
  have one : (ClientMessage.opens (.openBuffer requestId forceReload)).length = 1 := rfl
  refine ⟨eq_nil_of_length_eq_zero ?_, eq_nil_of_length_eq_zero ?_, eq_nil_of_length_eq_zero ?_⟩ <;> omega

theorem Phase.asked (phase : w.Phase buffer) (settled : w.Settled) : requestId = buffer.fileId ∧
    (forceReload = false → buffer.syncClock = none ∧ ∀ expectedServerVersion newClientVersion edits,
      .bufferEdit expectedServerVersion newClientVersion edits ∉ up) := by
  obtain ⟨alone, nobody, nothing⟩ := settled.alone isUp
  have open' : 0 < (w.up.flatMap ClientMessage.opens).length := by
    refine @opens_pos _ requestId forceReload ?_
    rw [isUp]
    exact mem_cons_self
  have asks : w.unanswered ≠ [] := by
    intro answered
    have none := congrArg List.length answered
    rw [length_unanswered, length_nil] at none
    omega
  cases phase with
  | reported _ quiet => exact absurd quiet asks
  | synced _ _ _ _ _ quiet => exact absurd quiet asks
  | asking before after force isAsked unforced =>
    rw [isUp] at isAsked
    cases before with
    | nil =>
      rw [nil_append, List.cons.injEq, ClientMessage.openBuffer.injEq] at isAsked
      obtain ⟨⟨same, sameForce⟩, sameUp⟩ := isAsked
      exact ⟨same, fun isUnforced => sameUp ▸ unforced (sameForce ▸ isUnforced)⟩
    | cons first before =>
      rw [cons_append, List.cons.injEq] at isAsked
      rw [isAsked.2] at alone
      simp [ClientMessage.opens] at alone
  | waiting waits =>
    rw [nobody] at waits
    cases waits
  | failed e fails =>
    have one := opened_pos fails
    rw [nothing] at one
    exact absurd one (Nat.lt_irrefl 0)
  | answered before after content serverVersion isDown =>
    rw [isDown] at nothing
    simp [ServerMessage.opened] at nothing

theorem Settled.openBuffer (settled : w.Settled) (connections : d'.connections = w.daemon.connections.insert w.connId)
    (outcome : d'.ofKind .openBuffer = [] ∧ more.flatMap ServerMessage.opened = [requestId] ∧ d'.reloads = [] ∧
        d'.loading = false ∨
      d'.ofKind .openBuffer = [⟨requestId, w.connId, .openBuffer⟩] ∧ more.flatMap ServerMessage.opened = [])
    (known : ∃ replica, d'.replica? = some replica ∧ (d'.loading = true → replica.clock.clientVersion = 0))
    (creates : d'.loading = true → w.daemon.replica? = none) (task : d'.reloads.length + d'.loading.toNat ≤ 1) :
    ({ w with daemon := d', up := up, down := w.down ++ more } : Session).Settled := by
  obtain ⟨alone, nobody, nothing⟩ := settled.alone isUp
  obtain ⟨replica, isReplica, zero⟩ := known
  have isTracked : d'.connections = [w.connId] := by
    rw [connections]
    cases old : w.daemon.replica? with
    | none =>
      rw [(settled.untracked old).1]
      rfl
    | some replica =>
      rw [settled.tracked replica old]
      exact insert_of_mem (mem_singleton_self _)
  refine ⟨fun _ _ => isTracked, ?_, ?_, ?_, task, ?_, ?_, fun loading => ⟨replica, isReplica, zero loading⟩, settled.unloaded⟩
  · intro missing
    rw [isReplica] at missing
    cases missing
  · rcases outcome with ⟨none, -⟩ | ⟨one, -⟩
    · show ∀ request ∈ d'.ofKind .openBuffer, _
      rw [none]
      exact fun _ => (nomatch ·)
    · show ∀ request ∈ d'.ofKind .openBuffer, _
      rw [one]
      exact fun request member => by rw [List.mem_singleton.mp member]
  · show (up.flatMap _ ++ (d'.ofKind .openBuffer).map _ ++ (w.down ++ more).flatMap _).length ≤ 1
    rw [alone, flatMap_append, nothing]
    rcases outcome with ⟨none, answered, -⟩ | ⟨one, silent⟩
    · rw [none, answered]
      exact Nat.le_refl _
    · rw [one, silent]
      exact Nat.le_refl _
  · intro none
    rcases outcome with ⟨-, -, idle⟩ | ⟨one, -⟩
    · exact idle
    · have absent : d'.ofKind .openBuffer = [] := none
      rw [absent] at one
      cases one
  · rintro (missing | loading)
    · have absent : d'.replica? = none := missing
      rw [absent] at isReplica
      cases isReplica
    · have unedited := settled.unedited (.inl (creates loading))
      refine ⟨fun expected made edits member => unedited.up expected made edits ?_, unedited.deallocated, unedited.buffer⟩
      rw [isUp]
      exact mem_cons_of_mem _ member

theorem Inv.handleOpen (inv : w.Inv) (proper : forceReload = false → ∀ state, w.daemon.state = some state →
    w.daemon.loaded → state.syncClock.clientVersion = 0) : w.handleMessage.Inv := by
  obtain ⟨alone, nobody, nothing⟩ := inv.settled.alone isUp
  obtain ⟨noReload, noLoad⟩ := inv.settled.idle nobody
  have later : ∀ message ∈ up, message ∈ w.up := by
    rw [isUp]
    exact fun _ => mem_cons_of_mem _
  have isNext : ∀ out d', w.daemon.handleOpenBuffer w.connId requestId forceReload = (out, d') →
      w.handleMessage = { w with daemon := d', up := up, down := w.down ++ w.routed out } := by
    intro out d' outcome
    rw [handleMessage_eq isUp]
    unfold dropped
    rw [append_nil]
    show dispatch _ (w.daemon.handleOpenBuffer w.connId requestId forceReload) = _
    rw [outcome]
    rfl
  have waits : ∀ d', Daemon.Asks w.daemon w.connId requestId d' →
      (∃ replica, d'.replica? = some replica ∧ replica.clock.Before w.given ∧
        (d'.loading = true → replica.clock.clientVersion = 0)) →
      (d'.loading = true → w.daemon.replica? = none) → d'.reloads.length + d'.loading.toNat ≤ 1 →
      ({ w with daemon := d', up := up, down := w.down ++ [] } : Session).Inv := by
    intro d' asks ⟨replica, isReplica, before, zero⟩ creates task
    have one : d'.ofKind .openBuffer = [⟨requestId, w.connId, .openBuffer⟩] := by
      rw [asks.opens, show w.daemon.ofKind .openBuffer = [] from nobody]
      rfl
    refine ⟨?_, ?_, ?_⟩
    · refine inv.bounded.daemon rfl asks.nextVersion ?_ later ?_ fun _ => .inl
      · intro known isKnown
        rw [← Option.some_inj.mp (isReplica.symm.trans isKnown)]
        have le : w.given.le ({ w with daemon := d', up := up, down := w.down ++ [] } : Session).given :=
          ⟨asks.nextVersion, Nat.le_refl _⟩
        exact before.mono le
      · exact fun message member => .inl (append_nil w.down ▸ member)
    · exact inv.settled.openBuffer isUp asks.connections (.inr ⟨one, rfl⟩) ⟨replica, isReplica, zero⟩ creates task
    · intro buffer isBuffer
      refine .waiting ?_
      show (d'.ofKind .openBuffer).map _ = _
      rw [one, ← ((inv.phase buffer isBuffer).asked isUp inv.settled).1]
      rfl
  cases outcome : w.daemon.handleOpenBuffer w.connId requestId forceReload with
  | mk out d' =>
    have opens := @Daemon.handleOpenBuffer_opens _ w.connId requestId forceReload nobody
    rw [outcome] at opens
    rw [isNext _ _ outcome]
    cases opens with
    | reads d' reload replica asks known kept reloads captured loading =>
      refine waits d' asks ⟨replica, kept, inv.bounded.replica replica known, ?_⟩ ?_ ?_
      · intro isLoading
        rw [loading, noLoad] at isLoading
        cases isLoading
      · intro isLoading
        rw [loading, noLoad] at isLoading
        cases isLoading
      · rw [reloads, noReload, loading, noLoad]
        exact Nat.le_refl _
    | creates d' asks missing created reloads loading =>
      refine waits d' asks ⟨_, created, inv.bounded.positive, fun _ => rfl⟩ (fun _ => missing) ?_
      rw [reloads, noReload, loading]
      exact Nat.le_refl _
    | waits d' replica asks unforced known kept reloads loading =>
      refine waits d' asks ⟨replica, kept, inv.bounded.replica replica known, ?_⟩ ?_ ?_
      · intro isLoading
        rw [loading, noLoad] at isLoading
        cases isLoading
      · intro isLoading
        rw [loading, noLoad] at isLoading
        cases isLoading
      · rw [reloads, noReload, loading, noLoad]
        exact Nat.zero_le _
    | answers d' replica unforced loaded connections opens known kept reloads loading nextVersion =>
      have none : d'.ofKind .openBuffer = [] := opens.trans nobody
      have before := inv.bounded.replica replica known
      have zero : replica.clock.clientVersion = 0 := by
        obtain ⟨state, isState, rfl⟩ := Option.map_eq_some_iff.mp known
        exact proper unforced state isState loaded
      have routes : w.routed [(w.connId, .openBufferResponse requestId (.ok ⟨replica.text, replica.clock.serverVersion⟩))] =
          [.openBufferResponse requestId (.ok ⟨replica.text, replica.clock.serverVersion⟩)] := by
        unfold routed
        simp
      rw [routes]
      refine ⟨?_, ?_, ?_⟩
      · refine inv.bounded.daemon rfl nextVersion ?_ later ?_ fun _ => .inl
        · intro other isOther
          rw [← Option.some_inj.mp (kept.symm.trans isOther)]
          have le : w.given.le ({ w with daemon := d' } : Session).given := ⟨nextVersion, Nat.le_refl _⟩
          exact before.mono le
        · intro message member
          refine (List.mem_append.mp member).imp_right fun new => ?_
          rw [List.mem_singleton.mp new]
          exact Nat.lt_of_lt_of_le before.1 nextVersion
      · refine inv.settled.openBuffer isUp connections ?_ ⟨replica, kept, fun _ => zero⟩ ?_ ?_
        · exact .inl ⟨none, rfl, reloads.trans noReload, loading.trans noLoad⟩
        · intro isLoading
          rw [loading, noLoad] at isLoading
          cases isLoading
        · rw [reloads, noReload, loading, noLoad]
          exact Nat.zero_le _
      · intro buffer isBuffer
        obtain ⟨same, unedited⟩ := (inv.phase buffer isBuffer).asked isUp inv.settled
        obtain ⟨unloaded, unsent⟩ := unedited unforced
        have isClock : replica = ⟨replica.text, ⟨replica.clock.serverVersion, 0⟩⟩ := by
          rw [← zero]
        refine .answered w.down [] replica.text replica.clock.serverVersion ?_ replica kept ?_ ?_
        · rw [same]
        · rw [isClock]
          exact synced_refl (fun _ _ _ member => absurd member (unsent _ _ _)) inv.bounded.rejected
        · intro clock isLoaded
          rw [unloaded] at isLoaded
          cases isLoaded

end Open

section Answers

variable {result : Except Str OpenBufferSuccess} {out : Dispatch} {request : PendingBufferRequest}

theorem Settled.one (settled : w.Settled) (some : w.opens ≠ []) : ∃ request, w.opens = [request] ∧
    w.up.flatMap ClientMessage.opens = [] ∧ w.down.flatMap ServerMessage.opened = [] := by
  have single := settled.single
  rw [length_unanswered] at single
  have pos := length_pos_of_ne_nil some
  obtain ⟨request, isOne⟩ := List.length_eq_one_iff.mp (show w.opens.length = 1 by omega)
  refine ⟨request, isOne, eq_nil_of_length_eq_zero ?_, eq_nil_of_length_eq_zero ?_⟩ <;> omega

theorem Phase.waited (phase : w.Phase buffer) (settled : w.Settled) (isOne : w.opens = [request]) :
    request.requestId = buffer.fileId := by
  obtain ⟨other, -, nothingUp, nothingDown⟩ := settled.one (by rw [isOne]; exact cons_ne_nil _ _)
  have waits : w.unanswered ≠ [] := by
    intro answered
    have none := Settled.opens_of_answered answered
    rw [isOne] at none
    cases none
  cases phase with
  | reported _ quiet => exact absurd quiet waits
  | synced _ _ _ _ _ quiet => exact absurd quiet waits
  | asking before after force isAsked =>
    rw [isAsked] at nothingUp
    simp [ClientMessage.opens] at nothingUp
  | waiting waits =>
    rw [isOne] at waits
    exact List.singleton_inj.mp waits
  | failed e fails =>
    have one := opened_pos fails
    rw [nothingDown] at one
    exact absurd one (Nat.lt_irrefl 0)
  | answered before after content serverVersion isDown =>
    rw [isDown] at nothingDown
    simp [ServerMessage.opened] at nothingDown

theorem Inv.answers (inv : w.Inv) (answers : Daemon.Answers w.daemon result out d') (isOne : w.opens = [request])
    (reloads : d'.reloads = []) (loading : d'.loading = false) {server old : Replica}
    (known : w.daemon.replica? = some old) (known' : d'.replica? = some server)
    (before : server.clock.serverVersion < d'.nextVersion ∧ server.clock.clientVersion < w.client.nextVersion)
    (reads : (∃ e, result = .error e) ∨
      ∃ content, result = .ok ⟨content, server.clock.serverVersion⟩ ∧ server = ⟨content, ⟨server.clock.serverVersion, 0⟩⟩ ∧
        (∀ expectedServerVersion newClientVersion edits, .bufferEdit expectedServerVersion newClientVersion edits ∈ w.up →
          expectedServerVersion < server.clock.serverVersion ∧ newClientVersion < w.client.nextVersion) ∧
        ∀ buffer, w.client.buffer = some buffer → ∀ clock, buffer.syncClock = some clock →
          clock.serverVersion < server.clock.serverVersion ∧
          (∀ batch, buffer.pendingBatch = some batch → batch.expectedServerVersion < server.clock.serverVersion) ∧
          ∀ push ∈ pushes w.down, push.newServerVersion < server.clock.serverVersion) :
    (w.dispatch (out, d')).Inv := by
  obtain ⟨other, isOther, nothingUp, nothingDown⟩ := inv.settled.one (by rw [isOne]; exact cons_ne_nil _ _)
  have requester := inv.settled.requesters request (by rw [isOne]; exact mem_singleton_self _)
  have routes : w.routed out = [.openBufferResponse request.requestId result] := by
    unfold routed
    rw [answers.out, show w.daemon.ofKind .openBuffer = [request] from isOne]
    simp [requester]
  have down : (w.dispatch (out, d')).down = w.down ++ [.openBufferResponse request.requestId result] := by
    rw [← routes]
    rfl
  have opens : (w.dispatch (out, d')).opens = [] := answers.opens
  refine ⟨?_, ?_, ?_⟩
  · refine inv.bounded.daemon rfl answers.nextVersion ?_ (fun _ => id) ?_ fun _ => .inl
    · intro replica isReplica
      rw [← Option.some_inj.mp (known'.symm.trans isReplica)]
      exact before
    · intro message member
      rw [down] at member
      refine (List.mem_append.mp member).imp_right fun new => ?_
      rw [List.mem_singleton.mp new]
      rcases reads with ⟨e, rfl⟩ | ⟨content, rfl, -⟩
      · exact trivial
      · exact before.1
  · refine ⟨?_, ?_, ?_, ?_, ?_, fun _ => ⟨reloads, loading⟩, ?_, ?_, inv.settled.unloaded⟩
    · intro _ _
      exact answers.connections.trans (inv.settled.tracked old known)
    · intro missing
      have absent : d'.replica? = none := missing
      rw [known'] at absent
      cases absent
    · rw [opens]
      exact fun _ => (nomatch ·)
    · rw [length_unanswered, opens, down, flatMap_append, nothingDown]
      show (w.up.flatMap _).length + _ + _ ≤ 1
      rw [nothingUp]
      exact Nat.le_refl _
    · show d'.reloads.length + d'.loading.toNat ≤ 1
      rw [reloads, loading]
      exact Nat.zero_le _
    · rintro (missing | isLoading)
      · have absent : d'.replica? = none := missing
        rw [known'] at absent
        cases absent
      · exact absurd isLoading (by rw [show (w.dispatch (out, d')).daemon.loading = false from loading]; exact Bool.false_ne_true)
    · intro isLoading
      rw [show (w.dispatch (out, d')).daemon.loading = false from loading] at isLoading
      cases isLoading
  · intro buffer isBuffer
    have same := (inv.phase buffer isBuffer).waited inv.settled isOne
    rcases reads with ⟨e, rfl⟩ | ⟨content, rfl, isServer, stale, older⟩
    · refine .failed e ?_
      rw [down, same]
      exact mem_append_right _ (mem_singleton_self _)
    · refine .answered w.down [] content server.clock.serverVersion ?_ server known' ?_ (older buffer isBuffer)
      · rw [down, same]
      · rw [← isServer]
        exact synced_refl stale inv.bounded.rejected

theorem Inv.loadFinished (inv : w.Inv) (read : Except Str Str) : (w.dispatch (w.daemon.loadFinished read)).Inv := by
  by_cases loading : w.daemon.loading = true
  · obtain ⟨old, known, zero⟩ := inv.settled.loading loading
    have some : w.opens ≠ [] := by
      intro none
      rw [(inv.settled.idle none).2] at loading
      cases loading
    obtain ⟨request, isOne, -⟩ := inv.settled.one some
    obtain ⟨answer, answers, unloading, reloads, outcome⟩ := Daemon.loadFinished_answers loading known read
    have task := inv.settled.task
    rw [loading, Bool.toNat_true] at task
    have noReload := reloads.trans (eq_nil_of_length_eq_zero (by omega))
    have before := inv.bounded.replica old known
    have le : w.daemon.nextVersion ≤ _ := answers.nextVersion
    have unedited := inv.settled.unedited (.inr loading)
    rcases outcome with ⟨⟨e, isError⟩, known'⟩ | ⟨content, isOk, known'⟩
    · exact inv.answers answers isOne noReload unloading known known' ⟨Nat.lt_of_lt_of_le before.1 le, before.2⟩
        (.inl ⟨e, isError⟩)
    · refine inv.answers answers isOne noReload unloading known known' ⟨Nat.lt_of_lt_of_le before.1 le, before.2⟩
        (.inr ⟨content, isOk, ?_, ?_, ?_⟩)
      · rw [← zero]
      · exact fun _ _ _ member => absurd member (unedited.up _ _ _)
      · intro buffer isBuffer clock isClock
        rw [unedited.buffer buffer isBuffer] at isClock
        cases isClock
  · rw [Daemon.loadFinished_idle (by simpa using loading)]
    exact inv.still (.refl _)

theorem Inv.reloadFinished (inv : w.Inv) (task : ℕ) (read : Except Str Str) :
    (w.dispatch (w.daemon.reloadFinished task read)).Inv := by
  cases running : w.daemon.reloads.find? (·.task = task) with
  | none =>
    rw [Daemon.reloadFinished_idle running]
    exact inv.still (.refl _)
  | some reload =>
    have member := mem_of_find?_eq_some running
    have pos := length_pos_of_mem member
    have some : w.opens ≠ [] := by
      intro none
      rw [(inv.settled.idle none).1] at member
      cases member
    obtain ⟨request, isOne, -⟩ := inv.settled.one some
    have count := inv.settled.task
    have single : w.daemon.reloads = [reload] := by
      obtain ⟨other, isOther⟩ := List.length_eq_one_iff.mp (show w.daemon.reloads.length = 1 by omega)
      rw [isOther] at member ⊢
      rw [List.mem_singleton.mp member]
    have idle : w.daemon.loading = false := by
      cases loading : w.daemon.loading with
      | false => rfl
      | true =>
        rw [loading, Bool.toNat_true] at count
        omega
    obtain ⟨old, known⟩ : ∃ old, w.daemon.replica? = Option.some old := by
      cases known : w.daemon.replica? with
      | none => exact absurd (inv.settled.untracked known).2.1 some
      | some old => exact ⟨old, rfl⟩
    have served : ∀ connId ∈ w.daemon.connections, connId ∈ w.daemon.pendingConnectionsForOpenBuffer := by
      rw [inv.settled.tracked old known]
      intro connId isConn
      rw [List.mem_singleton.mp isConn]
      have isRequest : request ∈ w.opens := by
        rw [isOne]
        exact mem_singleton_self _
      exact List.mem_map.mpr ⟨request, isRequest, inv.settled.requesters request isRequest⟩
    obtain ⟨answer, answers, loading, reloads, outcome⟩ := Daemon.reloadFinished_answers running known served read
    have noReload : (w.daemon.reloadFinished task read).2.reloads = [] := by
      rw [reloads, single]
      have isTask := List.find?_some running
      simp [of_decide_eq_true isTask]
    have before := inv.bounded.replica old known
    have positive := inv.bounded.positive
    rcases outcome with ⟨⟨e, isError⟩, known'⟩ | ⟨content, isOk, known', nextVersion⟩
    · exact inv.answers answers isOne noReload (loading.trans idle) known known'
        ⟨Nat.lt_of_lt_of_le before.1 answers.nextVersion, before.2⟩ (.inl ⟨e, isError⟩)
    · refine inv.answers answers isOne noReload (loading.trans idle) known known'
        ⟨Nat.lt_of_lt_of_le (Nat.lt_succ_self _) nextVersion, positive.2⟩ (.inr ⟨content, isOk, rfl, ?_, ?_⟩)
      · intro expectedServerVersion newClientVersion edits isSent
        have sent := inv.bounded.up _ isSent
        exact ⟨Nat.lt_succ_of_lt sent.1, sent.2⟩
      · intro buffer isBuffer clock isClock
        have bounds := inv.bounded.buffer buffer isBuffer
        refine ⟨Nat.lt_succ_of_lt (bounds.clock clock isClock).1,
          fun batch isBatch => Nat.lt_succ_of_lt (bounds.batch batch isBatch).1, fun push isPush => ?_⟩
        have pushed := inv.bounded.down _ (mem_pushes.mp isPush)
        exact Nat.lt_succ_of_lt pushed.1

end Answers

end Warp.Remote.BufferSync.Session
