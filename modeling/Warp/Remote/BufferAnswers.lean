import Warp.Remote.BufferAccounts

namespace Warp.Remote.BufferServer

open List

open CodeReview (ConnectionId)

variable {s s' : BufferServer} {connId : ConnectionId} {fileId : FileId} {path : Str} {orphans : List FileId}

theorem loadedBody_unsaved : s.loadedBody fileId ≠ .saveSuccess := by
  unfold loadedBody
  split <;> simp

theorem openedBody_unsaved : s.openedBody fileId ≠ .saveSuccess := by
  unfold openedBody
  split
  · simp
  · split <;> simp

structure EndsRead (fileId : FileId) (s s' : BufferServer) : Prop where
  tracker : s'.buffers = s.buffers
  loads : ∀ other ∈ s.fileModel.loads, other ≠ fileId → other ∈ s'.fileModel.loads
  reloads : ∀ reload ∈ s.globalBuffers.reloads, reload.fileId ≠ fileId → reload ∈ s'.globalBuffers.reloads
  writes : s.fileModel.writes ⊆ s'.fileModel.writes
  buffers : ∀ other, (s.globalBuffers.buffers.get? other).isSome → (s'.globalBuffers.buffers.get? other).isSome
  tasked : Tasked s → Tasked s'

theorem EndsRead.setBuffer {buffer : ServerBuffer} (ends : EndsRead fileId s s') :
    EndsRead fileId s (s'.setBuffer fileId buffer) where
  tracker := ends.tracker
  loads := ends.loads
  reloads := ends.reloads
  writes := ends.writes
  buffers other present := continues_setBuffer.buffers other (ends.buffers other present)
  tasked tasked := continues_setBuffer.tasked (ends.tasked tasked)

theorem endsRead_load : EndsRead fileId s
    { s with fileModel := { s.fileModel with loads := s.fileModel.loads.remove fileId } } where
  tracker := rfl
  loads other member apart := HashSet.mem_remove.mpr ⟨member, apart⟩
  reloads _ member _ := member
  writes := List.Subset.refl _
  buffers _ := id
  tasked tasked := tasked.sublist (List.Sublist.refl _) (List.Sublist.refl _) rfl

structure EndsWrite (write : Write) (s s' : BufferServer) : Prop where
  tracker : s'.buffers = s.buffers
  loads : ∀ other ∈ s.fileModel.loads, other ∈ s'.fileModel.loads
  reloads : s.globalBuffers.reloads ⊆ s'.globalBuffers.reloads
  writes : ∀ other ∈ s.fileModel.writes, other.fileId ≠ write.fileId → other ∈ s'.fileModel.writes
  buffers : ∀ other, (s.globalBuffers.buffers.get? other).isSome → (s'.globalBuffers.buffers.get? other).isSome
  tasked : Tasked s → Tasked s'

theorem mem_filter_task {ι : Type*} {task : ι → ℕ} {items : List ι} {item other : ι} (distinct : (items.map task).Nodup)
    (member : item ∈ items) (isOther : other ∈ items) (apart : other ≠ item) :
    other ∈ items.filter fun one => task one ≠ task item := by
  refine List.mem_filter.mpr ⟨isOther, ?_⟩
  rw [decide_eq_true_eq]
  exact fun same => apart (inj_on_of_nodup_map distinct isOther member same)

theorem reloadFinished_eq (tasked : Tasked s) {reload : Reload} (member : reload ∈ s.globalBuffers.reloads)
    (result : Except Str Str) : ∃ s' body, s.reloadFinished reload.task result = s'.takePending reload.fileId .openBuffer body ∧
      body ≠ .saveSuccess ∧ EndsRead reload.fileId s s' := by
  have ended : EndsRead reload.fileId s { s with
      globalBuffers := { s.globalBuffers with reloads := s.globalBuffers.reloads.filter (·.task ≠ reload.task) } } :=
    { tracker := rfl
      loads := fun other member _ => member
      reloads := fun other isOther apart => mem_filter_task tasked.reloads member isOther fun same => apart (by rw [same])
      writes := List.Subset.refl _
      buffers := fun _ => id
      tasked := fun tasked => tasked.sublist (List.Sublist.refl _) filter_sublist rfl }
  unfold reloadFinished
  rw [(BiMap.find?_key_eq_some_iff tasked.reloads).mpr ⟨member, rfl⟩]
  cases result with
  | error e => exact ⟨_, _, rfl, by simp, ended⟩
  | ok content =>
    dsimp only
    split
    · exact ⟨_, _, rfl, by simp, ended⟩
    · refine ⟨_, _, rfl, loadedBody_unsaved, EndsRead.setBuffer ?_⟩
      exact ⟨ended.tracker, ended.loads, ended.reloads, ended.writes, ended.buffers, fun tasked =>
        (ended.tasked tasked).sublist (List.Sublist.refl _) (List.Sublist.refl _) rfl⟩

theorem writeFinished_eq (tasked : Tasked s) {write : Write} (member : write ∈ s.fileModel.writes) (result : Except Str Unit) :
    ∃ s' save resolve, s.writeFinished write.task result = s'.takeSaves write.fileId save resolve ∧
      (save = .saveSuccess → result.toOption.isSome) ∧ resolve ≠ .saveSuccess ∧ EndsWrite write s s' := by
  have ended : EndsWrite write s { s with
      fileModel := { s.fileModel with writes := s.fileModel.writes.filter (·.task ≠ write.task) } } :=
    { tracker := rfl
      loads := fun _ => id
      reloads := List.Subset.refl _
      writes := fun other isOther apart => mem_filter_task tasked.writes member isOther fun same => apart (by rw [same])
      buffers := fun _ => id
      tasked := fun tasked => tasked.sublist filter_sublist (List.Sublist.refl _) rfl }
  unfold writeFinished
  rw [(BiMap.find?_key_eq_some_iff tasked.writes).mpr ⟨member, rfl⟩]
  cases result with
  | error e => exact ⟨_, _, _, rfl, by simp, by simp, ended⟩
  | ok _ => exact ⟨_, _, _, rfl, fun _ => rfl, by simp, ended⟩

theorem writeFinished_none {task : ℕ} {result : Except Str Unit}
    (missing : s.fileModel.writes.find? (·.task = task) = none) : s.writeFinished task result = ([], s) := by
  unfold writeFinished
  rw [missing]

theorem reloadFinished_none {task : ℕ} {result : Except Str Str}
    (missing : s.globalBuffers.reloads.find? (·.task = task) = none) : s.reloadFinished task result = ([], s) := by
  unfold reloadFinished
  rw [missing]

namespace World

variable {w w' : World} {key : Option FileId × PendingBufferRequestKind} {pending : PendingBufferRequest}
  {free free' : Option FileId × PendingBufferRequestKind → Prop}

theorem Coherent.loadFinished_eq (coherent : w.Coherent) (loading : fileId ∈ w.server.fileModel.loads)
    (result : Except Str Str) : ∃ s' body, w.server.loadFinished fileId result = s'.takePending fileId .openBuffer body ∧
      body ≠ .saveSuccess ∧ EndsRead fileId w.server s' := by
  unfold loadFinished
  rw [if_pos loading]
  cases result with
  | error e => exact ⟨_, _, rfl, by simp, endsRead_load⟩
  | ok content =>
    have present := coherent.loads fileId loading
    obtain ⟨buffer, found⟩ := Option.isSome_iff_exists.mp present
    dsimp only
    rw [found]
    dsimp only
    rw [if_pos (show fileId ∈ w.server.buffers.bufferHandles from (coherent.alive fileId).mpr present)]
    exact ⟨_, _, rfl, loadedBody_unsaved, endsRead_load.setBuffer⟩

theorem answer_nothing : w.answer ([], w.server) = w := by
  unfold answer
  rw [map_nil, append_nil]

theorem handle_cons {file : Option FileId} {response : Response} {responses : List Response} :
    w.handle pending file (response :: responses, s') = (w.handle pending file ([response], s)).answer (responses, s') := by
  simp [handle, answer]

theorem hold_eq : ∃ opened holding, w.hold connId path = { w with opened := opened, holding := holding } := by
  unfold hold
  cases w.tracker.fileIdForPath path with
  | none => exact ⟨_, _, rfl⟩
  | some fileId => exact ⟨_, _, rfl⟩

theorem AccountedBut.hold (accounted : AccountedBut free w) : AccountedBut free (w.hold connId path) := by
  obtain ⟨opened, holding, held⟩ := @hold_eq connId path w
  rw [held]
  exact ⟨accounted.balanced, accounted.busy, accounted.present, accounted.since, accounted.marks, accounted.saved,
    accounted.tasked⟩

section Draining

variable {body save resolve : ResponseBody}

theorem AccountedBut.answerOpens (accounted : AccountedBut (· = (some fileId, .openBuffer)) w) (unsaved : body ≠ .saveSuccess) :
    (w.answer (w.server.takePending fileId .openBuffer body)).Accounted :=
  (accounted.drain fun success => absurd success unsaved).mono fun _ ⟨isKey, apart⟩ => apart isKey

theorem takeSaves_eq : w.answer (s.takeSaves fileId save resolve) =
    (w.answer (s.takePending fileId .saveBuffer save)).answer
      ((s.takePending fileId .saveBuffer save).2.takePending fileId .resolveConflict resolve) := by
  unfold takeSaves answer
  dsimp only
  rw [map_append, append_assoc]

theorem waiting_takeSaves {kind : PendingBufferRequestKind} (closes : kind ≠ .openBuffer) :
    (w.answer (s.takeSaves fileId save resolve)).waiting (some fileId, kind) = [] := by
  rw [takeSaves_eq, waiting_takePending]
  split_ifs with resolves
  · rfl
  · have saves : kind = .saveBuffer := by
      cases kind with
      | openBuffer => exact absurd rfl closes
      | saveBuffer => rfl
      | resolveConflict => exact absurd rfl resolves
    rw [saves]
    exact (waiting_takePending (w := w)).trans (if_pos rfl)

theorem AccountedBut.answerSaves (accounted : AccountedBut (fun key => key.1 = some fileId ∧ key.2 ≠ .openBuffer) w)
    (written : save = .saveSuccess → ∀ r ∈ w.requests, r.pending ∈ w.waiting (some fileId, .saveBuffer) →
      r.fileId = some fileId → (fileId, r.content) ∈ w.written.drop r.since) (unsaved : resolve ≠ .saveSuccess) :
    (w.answer (w.server.takeSaves fileId save resolve)).Accounted := by
  rw [takeSaves_eq]
  have saves := accounted.drain written
  refine (saves.drain fun success => absurd success unsaved).mono ?_
  rintro ⟨file, kind⟩ ⟨⟨⟨isFile, closes⟩, apart⟩, apart'⟩
  have isFile : file = some fileId := isFile
  subst isFile
  cases kind with
  | openBuffer => exact closes rfl
  | saveBuffer => exact apart rfl
  | resolveConflict => exact apart' rfl

end Draining

section Tasks

theorem Accounted.endsRead (accounted : w.Accounted) (ends : EndsRead fileId w.server s') :
    AccountedBut (· = (some fileId, .openBuffer)) { w with server := s' } := by
  refine accounted.frame rfl rfl (prefix_refl _) (congrArg _ ends.tracker) (fun key kept some => ?_)
    (fun other some => ends.buffers other (accounted.present other some)) (ends.tasked accounted.tasked)
  obtain ⟨file, isFile, busy⟩ := accounted.busy key not_false some
  refine ⟨file, isFile, ?_⟩
  split_ifs with opens
  · rw [if_pos opens] at busy
    have apart : file ≠ fileId := fun same => kept (Prod.ext (isFile.trans (congrArg _ same)) opens)
    refine busy.imp (fun member => ends.loads file member apart) ?_
    rintro ⟨reload, member, same⟩
    exact ⟨reload, ends.reloads reload member (same ▸ apart), same⟩
  · rw [if_neg opens] at busy
    obtain ⟨write, member, same⟩ := busy
    exact ⟨write, ends.writes member, same⟩

theorem Accounted.endsWrite (accounted : w.Accounted) {write : Write} {written : List (FileId × Str)}
    (ends : EndsWrite write w.server s') : AccountedBut (fun key => key.1 = some write.fileId ∧ key.2 ≠ .openBuffer)
      { w with server := s', written := w.written ++ written } := by
  refine accounted.frame rfl rfl (prefix_append _ _) (congrArg _ ends.tracker) (fun key kept some => ?_)
    (fun other some => ends.buffers other (accounted.present other some)) (ends.tasked accounted.tasked)
  obtain ⟨file, isFile, busy⟩ := accounted.busy key not_false some
  refine ⟨file, isFile, ?_⟩
  split_ifs with opens
  · rw [if_pos opens] at busy
    exact busy.imp (ends.loads file) fun ⟨reload, member, same⟩ => ⟨reload, ends.reloads member, same⟩
  · rw [if_neg opens] at busy
    obtain ⟨other, member, same⟩ := busy
    have apart : file ≠ write.fileId := fun isWritten => kept ⟨isFile.trans (congrArg _ isWritten), opens⟩
    exact ⟨other, ends.writes other member (same ▸ apart), same⟩

variable {result : Except Str Str}

theorem Accounted.loadFinished (accounted : w.Accounted) (coherent : w.Coherent) :
    (w.step (.loadFinished fileId result)).Accounted := by
  by_cases loading : fileId ∈ w.server.fileModel.loads
  · obtain ⟨s', body, finished, unsaved, ends⟩ := coherent.loadFinished_eq loading result
    have drained := (accounted.endsRead ends).answerOpens unsaved
    unfold step
    dsimp only
    rw [finished]
    exact drained
  · have finished : w.server.loadFinished fileId result = ([], w.server) := if_neg loading
    unfold step
    dsimp only
    rw [finished, answer_nothing]
    exact accounted

theorem Accounted.reloadFinished (accounted : w.Accounted) {task : ℕ} :
    (w.step (.reloadFinished task result)).Accounted := by
  unfold step
  dsimp only
  cases found : w.server.globalBuffers.reloads.find? (·.task = task) with
  | none =>
    rw [reloadFinished_none found, answer_nothing]
    exact accounted
  | some reload =>
    obtain ⟨member, isTask⟩ := (BiMap.find?_key_eq_some_iff accounted.tasked.reloads).mp found
    subst isTask
    obtain ⟨s', body, finished, unsaved, ends⟩ := reloadFinished_eq accounted.tasked member result
    have drained := (accounted.endsRead ends).answerOpens unsaved
    rw [finished]
    exact drained

theorem Accounted.writeFinished (accounted : w.Accounted) {task : ℕ} {result : Except Str Unit}
    (proper : w.Proper (.writeFinished task result)) : (w.step (.writeFinished task result)).Accounted := by
  unfold step
  dsimp only
  cases found : w.server.fileModel.writes.find? (·.task = task) with
  | none =>
    have nothing : w.wrote task = [] := by
      unfold wrote
      rw [found]
      rfl
    rw [writeFinished_none found, nothing, ite_self, append_nil]
    exact (congrArg Accounted answer_nothing).mpr accounted
  | some write =>
    obtain ⟨member, isTask⟩ := (BiMap.find?_key_eq_some_iff accounted.tasked.writes).mp found
    subst isTask
    obtain ⟨s', save, resolve, finished, success, unsaved, ends⟩ := writeFinished_eq accounted.tasked member result
    have wrote : w.wrote write.task = [(write.fileId, write.content)] := by
      unfold World.wrote
      rw [found]
      rfl
    rw [finished, wrote]
    refine (accounted.endsWrite ends).answerSaves (fun isSuccess r handled waits isFile => ?_) unsaved
    have ok := success isSuccess
    have content := proper ok write member rfl r handled isFile ?_
    · dsimp only
      rw [if_pos ok, drop_append_of_le_length (accounted.since r handled), content]
      exact mem_append_right _ (mem_singleton_self _)
    · have same : ({ w with server := s' } : World).waiting = w.waiting :=
        waiting_eq fun other => congrArg (fun t : ServerBufferTracker => t.pendingRequests.values other) ends.tracker
      rw [← same]
      exact waits

end Tasks

section Messages

variable {requestId : RequestId}

theorem Accounted.openBuffer (accounted : w.Accounted) (coherent : w.Coherent) {forceReload : Bool}
    (asks : w.Asks connId requestId) (proper : w.Proper (.openBuffer connId requestId path forceReload)) :
    (w.step (.openBuffer connId requestId path forceReload)).Accounted := by
  let pending : PendingBufferRequest := ⟨requestId, connId, .openBuffer⟩
  have fresh : pending ∉ w.book.asked.map Prod.snd := asks.fresh
  apply AccountedBut.hold
  have opens : Opens w.server path forceReload pending _ := coherent.opens
  revert opens
  generalize w.server.handleOpenBuffer path forceReload pending = outcome
  intro opens
  cases opens with
  | reload fileId placed places located same =>
    have tracked : placed.buffers.fileIdForPath path = some fileId := (places.paths path).trans (if_pos rfl)
    show AccountedBut _ (w.handle pending (placed.buffers.fileIdForPath path) _)
    rw [tracked]
    have joins : Continues w.server placed := same ▸ continues_withTracker
    exact accounted.ask fresh (joins.trans continues_reload) (by rw [same]; rfl)
      (joins.buffers fileId (coherent.known _ _ located))
      ⟨fileId, rfl, .inr ⟨_, mem_append_right _ (mem_singleton_self _), rfl⟩⟩
  | loaded fileId placed places same located =>
    have steady : Steady placed (placed.handleEvent (.bufferLoaded fileId)).2 := steady_handleEvent
    have tracked : (placed.handleEvent (.bufferLoaded fileId)).2.buffers.fileIdForPath path = some fileId := by
      unfold ServerBufferTracker.fileIdForPath
      rw [steady.openBuffers, places.paths, if_pos rfl]
    rw [tracked, handle_cons (s := placed)]
    have joins : Continues w.server placed := same ▸ continues_withTracker
    have replied : (w.handle pending (some fileId) ([⟨pending, placed.openedBody fileId⟩], placed)).Accounted :=
      accounted.reply fresh joins (by rw [same]; rfl) openedBody_unsaved
    exact (replied.mono fun _ => False.elim).answerOpens loadedBody_unsaved
  | waits fileId placed places located busy same =>
    have tracked : placed.buffers.fileIdForPath path = some fileId := (places.paths path).trans (if_pos rfl)
    show AccountedBut _ (w.handle pending (placed.buffers.fileIdForPath path) _)
    rw [tracked]
    have joins : Continues w.server placed := same ▸ continues_withTracker
    have loading : w.Loading fileId := proper fileId located busy.1 busy.2
    have waits : w.Busy (some fileId, pending.kind) := ⟨fileId, rfl, loading⟩
    exact accounted.ask fresh joins (by rw [same]; rfl) (joins.buffers fileId (coherent.known _ _ located)) (waits.mono joins)
  | creates placed places same =>
    have tracked : placed.buffers.fileIdForPath path = some ⟨w.server.nextFile⟩ := (places.paths path).trans (if_pos rfl)
    show AccountedBut _ (w.handle pending (placed.buffers.fileIdForPath path) _)
    rw [tracked]
    have joins : Continues w.server placed := same ▸ continues_createNewBuffer.trans continues_withTracker
    refine accounted.ask fresh joins (by rw [same]; rfl) ((places.buffers _).mpr (.inl rfl)) ⟨_, rfl, .inl ?_⟩
    rw [same]
    exact HashSet.mem_insert.mpr (.inl rfl)

theorem Accounted.saveBuffer (accounted : w.Accounted) (coherent : w.Coherent) (asks : w.Asks connId requestId) :
    (w.step (.saveBuffer connId requestId path)).Accounted := by
  let pending : PendingBufferRequest := ⟨requestId, connId, .saveBuffer⟩
  have fresh : pending ∉ w.book.asked.map Prod.snd := asks.fresh
  show (w.handle pending (w.tracker.fileIdForPath path) (w.server.handleSaveBuffer path pending)).Accounted
  unfold handleSaveBuffer
  cases tracked : w.tracker.fileIdForPath path with
  | none =>
    rw [show w.server.buffers.fileIdForPath path = none from tracked]
    exact accounted.reply fresh (.refl _) rfl (by simp)
  | some fileId =>
    rw [show w.server.buffers.fileIdForPath path = some fileId from tracked]
    dsimp only
    cases saved : w.server.saveServerLocal fileId with
    | error e => exact accounted.reply fresh (.refl _) rfl (by simp)
    | ok s' =>
      have saves := saves_saveServerLocal saved
      exact accounted.ask fresh saves.toContinues (by rw [saves.buffers_eq]; rfl)
        (saves.buffers fileId (coherent.isSome_of_path tracked)) ⟨fileId, rfl, saves.writing⟩

theorem Accounted.resolveConflict (accounted : w.Accounted) (coherent : w.Coherent) (asks : w.Asks connId requestId)
    {version : ℕ} {content : Str} : (w.step (.resolveConflict connId requestId path version content)).Accounted := by
  let pending : PendingBufferRequest := ⟨requestId, connId, .resolveConflict⟩
  have fresh : pending ∉ w.book.asked.map Prod.snd := asks.fresh
  show (w.handle pending (w.tracker.fileIdForPath path)
    (w.server.handleResolveConflict path version content pending)).Accounted
  unfold handleResolveConflict
  cases tracked : w.tracker.fileIdForPath path with
  | none =>
    rw [show w.server.buffers.fileIdForPath path = none from tracked]
    exact accounted.reply fresh (.refl _) rfl (by simp)
  | some fileId =>
    rw [show w.server.buffers.fileIdForPath path = some fileId from tracked]
    dsimp only
    match resolved : w.server.resolveConflict fileId version content with
    | (s', .error e) =>
      obtain ⟨continues, buffers, -⟩ := continues_resolveConflict resolved
      exact accounted.reply fresh continues (by rw [buffers]; rfl) (by simp)
    | (s', .ok _) =>
      obtain ⟨-, buffers, saves⟩ := continues_resolveConflict resolved
      have saves := saves rfl
      exact accounted.ask fresh saves.toContinues (by rw [buffers]; rfl)
        (saves.buffers fileId (coherent.isSome_of_path tracked)) ⟨fileId, rfl, saves.writing⟩

end Messages

theorem Accounted.leave (accounted : w.Accounted) (removes : Removes orphans w.server w'.server)
    (pending : w'.tracker.pendingRequests = w.tracker.pendingRequests)
    (idle : ∀ fileId ∈ orphans, w.tracker.pendingRequests.values fileId = []) (requests : w'.requests = w.requests)
    (answers : w'.answers = w.answers) (written : w'.written = w.written) : w'.Accounted := by
  have kept : ∀ fileId, w.tracker.pendingRequests.values fileId ≠ [] → fileId ∉ orphans :=
    fun fileId some orphan => some (idle fileId orphan)
  have grows : w.written <+: w'.written := ⟨[], (append_nil _).trans written.symm⟩
  refine accounted.frame requests answers grows pending (fun key _ some => ?_) (fun fileId some => ?_) ?_
  · obtain ⟨fileId, isFile, busy⟩ := accounted.busy key not_false some
    refine ⟨fileId, isFile, ?_⟩
    have apart : fileId ∉ orphans := by
      obtain ⟨file, kind⟩ := key
      have isFile : file = Option.some fileId := isFile
      subst isFile
      exact kept fileId (waiting_ne_nil some)
    split_ifs with opens
    · rw [if_pos opens] at busy
      refine busy.imp (fun member => (removes.loads fileId).mpr ⟨member, apart⟩) ?_
      rw [removes.reloads]
      exact fun reading => reading
    · rw [if_neg opens] at busy
      unfold Writing
      rw [removes.writes]
      exact busy
  · rw [removes.buffers, if_neg (kept fileId some)]
    exact accounted.present fileId some
  · exact accounted.tasked.sublist (by rw [removes.writes]) (by rw [removes.reloads]) removes.nextTask

theorem closeBuffer_removes (proper : w.Proper (.closeBuffer connId path)) : ∃ orphans,
    Removes orphans w.server (w.server.handleCloseBuffer path connId) ∧
      (w.server.handleCloseBuffer path connId).buffers.pendingRequests = w.tracker.pendingRequests ∧
      ∀ fileId ∈ orphans, w.tracker.pendingRequests.values fileId = [] := by
  unfold handleCloseBuffer ServerBufferTracker.closeBuffer
  cases tracked : w.tracker.openBuffers.get? path with
  | none =>
    rw [show w.server.buffers.openBuffers.get? path = none from tracked]
    exact ⟨[], foldl_removes [] _, rfl, by simp⟩
  | some fileId =>
    rw [show w.server.buffers.openBuffers.get? path = some fileId from tracked]
    dsimp only
    split_ifs with empty
    · refine ⟨[fileId], remove_removes.of_withTracker, rfl, fun other isFile => ?_⟩
      rw [List.mem_singleton.mp isFile]
      refine (proper fileId tracked fun other member => ?_).1
      by_contra apart
      exact HashSet.isEmpty_iff.mp empty other (HashSet.mem_remove.mpr ⟨member, apart⟩)
    · exact ⟨[], (foldl_removes [] _).of_withTracker, rfl, by simp⟩

theorem disconnect_removes (proper : w.Proper (.disconnect connId)) : ∃ orphans,
    Removes orphans w.server (w.server.deregisterConnection connId) ∧
      (w.server.deregisterConnection connId).buffers.pendingRequests = w.tracker.pendingRequests ∧
      ∀ fileId ∈ orphans, w.tracker.pendingRequests.values fileId = [] := by
  obtain ⟨left, forgets, isLeft, orphaned⟩ := @ServerBufferTracker.removeConnection_spec connId w.tracker
  refine ⟨_, (foldl_removes (w.tracker.removeConnection connId).1 _).of_withTracker, ?_, fun fileId orphan => ?_⟩
  · show (BufferServer.buffers (List.foldl remove _ _)).pendingRequests = _
    rw [buffers_foldl_remove]
    exact forgets.pending
  · obtain ⟨conns, found, empty⟩ := (orphaned fileId).mp orphan
    have connected : (w.tracker.bufferConnections.get? fileId).isSome := by
      rw [← Option.isSome_map, ← isLeft, found]
      rfl
    refine proper fileId connected fun other member => ?_
    by_contra apart
    have kept := (mem_connections_of_left (isLeft fileId)).mpr ⟨member, apart⟩
    unfold ServerBufferTracker.connections at kept
    dsimp only at kept
    rw [found] at kept
    exact HashSet.isEmpty_iff.mp empty other kept

theorem Accounted.step (accounted : w.Accounted) (coherent : w.Coherent) {action : Action} (fresh : w.Fresh action)
    (proper : w.Proper action) : (w.step action).Accounted := by
  cases action with
  | openBuffer connId requestId path forceReload => exact accounted.openBuffer coherent fresh proper
  | saveBuffer connId requestId path => exact accounted.saveBuffer coherent fresh
  | resolveConflict connId requestId path version content => exact accounted.resolveConflict coherent fresh
  | closeBuffer connId path =>
    obtain ⟨orphans, removes, pending, idle⟩ := closeBuffer_removes proper
    exact accounted.leave removes pending idle rfl rfl rfl
  | disconnect connId =>
    obtain ⟨orphans, removes, pending, idle⟩ := disconnect_removes proper
    exact accounted.leave removes pending idle rfl rfl rfl
  | setText fileId text =>
    refine AccountedBut.continue accounted continues_setText ?_
    unfold setText
    cases w.server.buffer? fileId <;> rfl
  | loadFinished fileId result => exact accounted.loadFinished coherent
  | reloadFinished task result => exact accounted.reloadFinished
  | writeFinished task result => exact accounted.writeFinished proper

theorem Accounted.truthful (accounted : w.Accounted) (coherent : w.Coherent) : w.Truthful where
  once := accounted.balanced.once
  asked a member := by
    have asked := accounted.balanced.answeredAsked _ (List.mem_map.mpr ⟨a, member, rfl⟩)
    unfold book at asked
    rw [List.map_map] at asked
    exact List.mem_map.mp asked
  answered r member := by
    rcases accounted.balanced.accounted _ _ (List.mem_map.mpr ⟨r, member, rfl⟩) with withdrawn | answered | waits
    · cases withdrawn
    · exact .inl (List.mem_map.mp answered)
    · exact .inr ⟨waits, accounted.busy _ not_false (ne_nil_of_mem waits)⟩
  loadAnswers fileId loading result := by
    obtain ⟨s', body, finished, -, -⟩ := coherent.loadFinished_eq loading result
    unfold World.step
    dsimp only
    rw [finished]
    exact waiting_takePending.trans (if_pos rfl)
  reloadAnswers reload member result := by
    obtain ⟨s', body, finished, -, -⟩ := reloadFinished_eq accounted.tasked member result
    unfold World.step
    dsimp only
    rw [finished]
    exact waiting_takePending.trans (if_pos rfl)
  writeAnswers write member result kind closes := by
    obtain ⟨s', save, resolve, finished, -, -, -⟩ := writeFinished_eq accounted.tasked member result
    unfold World.step
    dsimp only
    rw [finished]
    exact waiting_takeSaves closes
  saved a member success := accounted.saved a member success
  pendingTracked fileId some := coherent.named fileId (accounted.present fileId some)
  tracked path fileId := by
    rw [← coherent.held_iff]
    exact coherent.paths path fileId
  alive fileId := by
    rw [coherent.buffer?_eq]
    exact coherent.held_iff

theorem run_answers_once {actions : List Action} (fresh : Trace.Every step Fresh new actions)
    (proper : Trace.Every step Proper new actions) : (actions.foldl step new).Truthful := by
  have every : Trace.Every step (fun w action => w.Fresh action ∧ w.Proper action) new actions :=
    Trace.every_and.mpr ⟨fresh, proper⟩
  have kept : (actions.foldl step new).Coherent ∧ (actions.foldl step new).Accounted := by
    refine every.invariant (P := fun w => w.Coherent ∧ w.Accounted) (fun w action kept allowed => ?_)
      ⟨new_coherent, new_accounted⟩
    exact ⟨kept.1.step allowed.2, kept.2.step kept.1 allowed.1 allowed.2⟩
  exact kept.2.truthful kept.1

def alice : ConnectionId := ⟨1⟩

def saving : List Action :=
  [.openBuffer alice ⟨"a"⟩ "/f".toList false, .loadFinished ⟨0⟩ (.ok "x".toList), .saveBuffer alice ⟨"b"⟩ "/f".toList]

instance {requestId : RequestId} : Decidable (w.Asks connId requestId) := inferInstanceAs (Decidable (_ ∧ _))

/-- The save is answered when the content is written. -/
theorem run_answers_once_saving : ((saving ++ [Action.writeFinished 0 (.ok ())]).foldl step new).Truthful := by
  refine run_answers_once ⟨?_, trivial, ?_, trivial, trivial⟩ ⟨?_, trivial, trivial, ?_, trivial⟩
  · show Asks _ _ _
    decide +kernel
  · show Asks _ _ _
    decide +kernel
  · intro fileId located
    cases located
  · intro _ write running _ r handled isFile waits
    have writes : (saving.foldl step new).server.fileModel.writes = [⟨0, ⟨0⟩, "x".toList⟩] := by rfl
    have requests : (saving.foldl step new).requests = [⟨⟨⟨"a"⟩, alice, .openBuffer⟩, some ⟨0⟩, [], 0⟩,
        ⟨⟨⟨"b"⟩, alice, .saveBuffer⟩, some ⟨0⟩, "x".toList, 0⟩] := by rfl
    rw [show write = ⟨0, ⟨0⟩, "x".toList⟩ from List.mem_singleton.mp (writes ▸ running)]
    have handled : r ∈ [_, _] := requests ▸ handled
    rcases List.mem_pair.mp handled with rfl | rfl
    · cases (List.mem_filter.mp waits).2
    · rfl

/-- The end of the first write answers the save of a later text too, which is not written. -/
theorem early_answer : ¬ ∀ actions : List Action, Trace.Every step Fresh new actions → (actions.foldl step new).Truthful := by
  intro truthful
  let run : List Action :=
    saving ++ [.setText ⟨0⟩ "y".toList, .saveBuffer alice ⟨"c"⟩ "/f".toList, .writeFinished 0 (.ok ())]
  have saved := (truthful run
    (by
      refine ⟨?_, trivial, ?_, trivial, ?_, trivial, trivial⟩
      all_goals
        show Asks _ _ _
        decide +kernel)).saved
    ⟨⟨⟨⟨"c"⟩, alice, .saveBuffer⟩, .saveSuccess⟩, 1⟩ (by decide +kernel) rfl
  obtain ⟨r, handled, fileId, same, isFile, written⟩ := saved
  have requests : (run.foldl step new).requests = [⟨⟨⟨"a"⟩, alice, .openBuffer⟩, some ⟨0⟩, [], 0⟩,
      ⟨⟨⟨"b"⟩, alice, .saveBuffer⟩, some ⟨0⟩, "x".toList, 0⟩, ⟨⟨⟨"c"⟩, alice, .saveBuffer⟩, some ⟨0⟩, "y".toList, 0⟩] := by rfl
  rw [requests] at handled
  have content : r.content = "y".toList := by
    simp only [mem_cons, not_mem_nil, or_false] at handled
    rcases handled with rfl | rfl | rfl
    · exact absurd same (by decide)
    · exact absurd same (by decide)
    · rfl
  have last : (fileId, r.content) ∈ [(⟨0⟩, "x".toList)] := mem_of_mem_drop written
  rw [content] at last
  cases congrArg Prod.snd (List.mem_singleton.mp last)

end World

end Warp.Remote.BufferServer
