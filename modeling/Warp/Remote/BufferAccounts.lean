import Warp.Remote.BufferTracking

namespace Warp.Remote.BufferServer

open List

open CodeReview (ConnectionId)

variable {s s' : BufferServer} {connId : ConnectionId} {fileId : FileId} {path : Str}

/-- The tasks that run have different numbers. -/
structure Tasked (s : BufferServer) : Prop where
  writes : (s.fileModel.writes.map Write.task).Nodup
  reloads : (s.globalBuffers.reloads.map Reload.task).Nodup
  writeBound : ∀ write ∈ s.fileModel.writes, write.task < s.nextTask
  reloadBound : ∀ reload ∈ s.globalBuffers.reloads, reload.task < s.nextTask

theorem nodup_map_snoc {ι : Type*} {task : ι → ℕ} {items : List ι} {item : ι} (distinct : (items.map task).Nodup)
    (bound : ∀ other ∈ items, task other < task item) : ((items ++ [item]).map task).Nodup := by
  rw [map_append, map_singleton, nodup_append]
  refine ⟨distinct, nodup_singleton _, fun number member new isNew => ?_⟩
  obtain ⟨other, isOther, rfl⟩ := List.mem_map.mp member
  rw [List.mem_singleton.mp isNew]
  exact (bound other isOther).ne

variable {content : Str}

theorem Tasked.write (tasked : Tasked s) : Tasked { s with
    fileModel := { s.fileModel with writes := s.fileModel.writes ++ [⟨s.nextTask, fileId, content⟩] }
    nextTask := s.nextTask + 1 } where
  writes := nodup_map_snoc tasked.writes tasked.writeBound
  reloads := tasked.reloads
  writeBound write member := by
    rcases List.mem_append.mp member with old | new
    · exact Nat.lt_succ_of_lt (tasked.writeBound write old)
    · rw [List.mem_singleton.mp new]
      exact Nat.lt_succ_self _
  reloadBound reload member := Nat.lt_succ_of_lt (tasked.reloadBound reload member)

theorem Tasked.reload (tasked : Tasked s) : Tasked { s with
    globalBuffers := { s.globalBuffers with reloads := s.globalBuffers.reloads ++ [⟨s.nextTask, fileId⟩] }
    nextTask := s.nextTask + 1 } where
  writes := tasked.writes
  reloads := nodup_map_snoc tasked.reloads tasked.reloadBound
  writeBound write member := Nat.lt_succ_of_lt (tasked.writeBound write member)
  reloadBound reload member := by
    rcases List.mem_append.mp member with old | new
    · exact Nat.lt_succ_of_lt (tasked.reloadBound reload old)
    · rw [List.mem_singleton.mp new]
      exact Nat.lt_succ_self _

theorem Tasked.sublist (tasked : Tasked s) (writes : s'.fileModel.writes.Sublist s.fileModel.writes)
    (reloads : s'.globalBuffers.reloads.Sublist s.globalBuffers.reloads) (nextTask : s'.nextTask = s.nextTask) : Tasked s' where
  writes := tasked.writes.sublist (writes.map _)
  reloads := tasked.reloads.sublist (reloads.map _)
  writeBound write member := nextTask ▸ tasked.writeBound write (writes.subset member)
  reloadBound reload member := nextTask ▸ tasked.reloadBound reload (reloads.subset member)

/-- What runs goes on, and no buffer is given up. -/
structure Continues (s s' : BufferServer) : Prop where
  loads : ∀ fileId ∈ s.fileModel.loads, fileId ∈ s'.fileModel.loads
  reloads : s.globalBuffers.reloads ⊆ s'.globalBuffers.reloads
  writes : s.fileModel.writes ⊆ s'.fileModel.writes
  buffers : ∀ fileId, (s.globalBuffers.buffers.get? fileId).isSome → (s'.globalBuffers.buffers.get? fileId).isSome
  tasked : Tasked s → Tasked s'

theorem Continues.refl (s : BufferServer) : Continues s s :=
  ⟨fun _ => id, List.Subset.refl _, List.Subset.refl _, fun _ => id, id⟩

theorem Continues.trans {s'' : BufferServer} (first : Continues s s') (later : Continues s' s'') : Continues s s'' where
  loads fileId member := later.loads fileId (first.loads fileId member)
  reloads := List.Subset.trans first.reloads later.reloads
  writes := List.Subset.trans first.writes later.writes
  buffers fileId present := later.buffers fileId (first.buffers fileId present)
  tasked tasked := later.tasked (first.tasked tasked)

theorem continues_withTracker {t : ServerBufferTracker} : Continues s (s.withTracker t) :=
  ⟨fun _ => id, List.Subset.refl _, List.Subset.refl _, fun _ => id,
    fun tasked => tasked.sublist (List.Sublist.refl _) (List.Sublist.refl _) rfl⟩

theorem continues_setBuffer {buffer : ServerBuffer} : Continues s (s.setBuffer fileId buffer) where
  loads _ := id
  reloads := List.Subset.refl _
  writes := List.Subset.refl _
  buffers other present := by
    unfold setBuffer
    dsimp only
    rw [HashMap.get?_insert]
    split_ifs
    · rfl
    · exact present
  tasked tasked := tasked.sublist (List.Sublist.refl _) (List.Sublist.refl _) rfl

theorem continues_setText {text : Str} : Continues s (s.setText fileId text) := by
  unfold setText
  cases s.buffer? fileId with
  | none => exact .refl s
  | some buffer => exact continues_setBuffer

theorem continues_createNewBuffer {location : PathBuf} : Continues s (s.createNewBuffer location).2 where
  loads fileId member := HashSet.mem_insert.mpr (.inr member)
  reloads := List.Subset.refl _
  writes := List.Subset.refl _
  buffers other present := by
    unfold createNewBuffer
    dsimp only
    rw [HashMap.get?_insert]
    split_ifs
    · rfl
    · exact present
  tasked tasked := tasked.sublist (List.Sublist.refl _) (List.Sublist.refl _) rfl

theorem continues_reload : Continues s { s with
    globalBuffers := { s.globalBuffers with reloads := s.globalBuffers.reloads ++ [⟨s.nextTask, fileId⟩] }
    nextTask := s.nextTask + 1 } :=
  ⟨fun _ => id, subset_append_left _ _, List.Subset.refl _, fun _ => id, Tasked.reload⟩

theorem saveFile_ok (ok : s.saveFile fileId content = .ok s') : s' = { s with
    fileModel := { s.fileModel with writes := s.fileModel.writes ++ [⟨s.nextTask, fileId, content⟩] }
    nextTask := s.nextTask + 1 } := by
  unfold saveFile at ok
  split_ifs at ok
  cases ok
  rfl

structure Saves (fileId : FileId) (s s' : BufferServer) : Prop extends Continues s s' where
  writing : ∃ write ∈ s'.fileModel.writes, write.fileId = fileId
  buffers_eq : s'.buffers = s.buffers

theorem saves_saveFile (ok : s.saveFile fileId content = .ok s') : Saves fileId s s' := by
  rw [saveFile_ok ok]
  exact
    { loads := fun _ => id
      reloads := List.Subset.refl _
      writes := subset_append_left _ _
      buffers := fun _ => id
      tasked := Tasked.write
      writing := ⟨_, mem_append_right _ (mem_singleton_self _), rfl⟩
      buffers_eq := rfl }

theorem saves_saveServerLocal (ok : s.saveServerLocal fileId = .ok s') : Saves fileId s s' := by
  unfold saveServerLocal at ok
  split_ifs at ok
  cases found : s.buffer? fileId with
  | none =>
    rw [found] at ok
    cases ok
  | some buffer =>
    rw [found] at ok
    exact saves_saveFile ok

theorem continues_resolveConflict {version : ℕ} {result : Except Str Unit}
    (resolved : s.resolveConflict fileId version content = (s', result)) :
    Continues s s' ∧ s'.buffers = s.buffers ∧ (result.toOption.isSome → Saves fileId s s') := by
  unfold resolveConflict at resolved
  cases found : s.globalBuffers.buffers.get? fileId with
  | none =>
    rw [found] at resolved
    cases resolved
    exact ⟨.refl s, rfl, fun ok => by cases ok⟩
  | some buffer =>
    rw [found] at resolved
    dsimp only at resolved
    split_ifs at resolved
    · cases saved : (s.setBuffer fileId ⟨content, version, true⟩).saveFile fileId content with
      | error e =>
        rw [saved] at resolved
        cases resolved
        exact ⟨continues_setBuffer, rfl, fun ok => by cases ok⟩
      | ok after =>
        rw [saved] at resolved
        cases resolved
        have saves := saves_saveFile saved
        have continues : Continues s s' := continues_setBuffer.trans saves.toContinues
        exact ⟨continues, saves.buffers_eq, fun _ => ⟨continues, saves.writing, saves.buffers_eq⟩⟩
    · cases resolved
      exact ⟨continues_setBuffer, rfl, fun ok => by cases ok⟩

namespace World

variable {w w' : World} {key : Option FileId × PendingBufferRequestKind} {pending : PendingBufferRequest}
  {free free' : Option FileId × PendingBufferRequestKind → Prop}

def book (w : World) : RequestBook (Option FileId × PendingBufferRequestKind) PendingBufferRequest :=
  ⟨w.requests.map fun r => ((r.fileId, r.pending.kind), r.pending), [], w.answers.map (·.response.request), w.waiting⟩

/-- A write of what the buffer held when the save was asked for ended before the answer. -/
def Saved (w : World) (a : Answer) : Prop := ∃ r ∈ w.requests, ∃ fileId, r.pending = a.response.request ∧
  r.fileId = some fileId ∧ (fileId, r.content) ∈ (w.written.take a.written).drop r.since

/-- The requests and their answers add up, where those under the free keys need not wait for anything. -/
structure AccountedBut (free : Option FileId × PendingBufferRequestKind → Prop) (w : World) : Prop where
  balanced : w.book.Balanced
  busy : ∀ key, ¬ free key → w.waiting key ≠ [] → w.Busy key
  present : ∀ fileId, w.tracker.pendingRequests.values fileId ≠ [] → (w.server.globalBuffers.buffers.get? fileId).isSome
  since : ∀ r ∈ w.requests, r.since ≤ w.written.length
  marks : ∀ a ∈ w.answers, a.written ≤ w.written.length
  saved : ∀ a ∈ w.answers, a.response.body = .saveSuccess → w.Saved a
  tasked : w.server.Tasked

def Accounted (w : World) : Prop := AccountedBut (fun _ => False) w

theorem new_accounted : new.Accounted where
  balanced := by
    have waiting : new.waiting = fun _ => [] := by
      funext key
      obtain ⟨fileId, kind⟩ := key
      cases fileId <;> rfl
    unfold book
    rw [waiting]
    exact RequestBook.empty_balanced
  busy key _ some := by
    obtain ⟨fileId, kind⟩ := key
    cases fileId <;> exact absurd rfl some
  present fileId some := absurd rfl some
  since r member := by cases member
  marks a member := by cases member
  saved a member := by cases member
  tasked := ⟨nodup_nil, nodup_nil, fun _ => (nomatch ·), fun _ => (nomatch ·)⟩

theorem AccountedBut.mono (accounted : AccountedBut free w) (le : ∀ key, free key → free' key) : AccountedBut free' w :=
  { accounted with busy := fun key kept => accounted.busy key fun isFree => kept (le key isFree) }

theorem Busy.mono (continues : Continues w.server w'.server) (busy : w.Busy key) : w'.Busy key := by
  obtain ⟨fileId, isFile, busy⟩ := busy
  refine ⟨fileId, isFile, ?_⟩
  split_ifs with opens
  · rw [if_pos opens] at busy
    exact busy.imp (continues.loads fileId) fun ⟨reload, member, same⟩ => ⟨reload, continues.reloads member, same⟩
  · rw [if_neg opens] at busy
    obtain ⟨write, member, same⟩ := busy
    exact ⟨write, continues.writes member, same⟩

theorem waiting_ne_nil {kind : PendingBufferRequestKind} (some : w.waiting (some fileId, kind) ≠ []) :
    w.tracker.pendingRequests.values fileId ≠ [] := by
  intro nothing
  refine some ?_
  show (w.tracker.pendingRequests.values fileId).filter _ = []
  rw [nothing]
  rfl

theorem waiting_eq (same : ∀ fileId, w'.tracker.pendingRequests.values fileId = w.tracker.pendingRequests.values fileId) :
    w'.waiting = w.waiting := by
  funext key
  obtain ⟨fileId, kind⟩ := key
  cases fileId with
  | none => rfl
  | some fileId =>
    show (w'.tracker.pendingRequests.values fileId).filter _ = _
    rw [same]
    rfl

theorem Saved.mono {a : Answer} (saved : w.Saved a) (mark : a.written ≤ w.written.length)
    (requests : ∀ r ∈ w.requests, r ∈ w'.requests) (written : w.written <+: w'.written) : w'.Saved a := by
  obtain ⟨r, member, fileId, isPending, isFile, content⟩ := saved
  obtain ⟨more, grown⟩ := written
  refine ⟨r, requests r member, fileId, isPending, isFile, ?_⟩
  rw [← grown, take_append_of_le_length mark]
  exact content

theorem AccountedBut.frame (accounted : AccountedBut free w) (requests : w'.requests = w.requests)
    (answers : w'.answers = w.answers) (written : w.written <+: w'.written)
    (pending : w'.tracker.pendingRequests = w.tracker.pendingRequests)
    (busy : ∀ key, ¬ free' key → w.waiting key ≠ [] → w'.Busy key)
    (present : ∀ fileId, w.tracker.pendingRequests.values fileId ≠ [] → (w'.server.globalBuffers.buffers.get? fileId).isSome)
    (tasked : w'.server.Tasked) : AccountedBut free' w' where
  balanced := by
    have waiting : w'.waiting = w.waiting := waiting_eq fun fileId => by rw [pending]
    unfold book
    rw [requests, answers, waiting]
    exact accounted.balanced
  busy key kept some := by
    have waiting : w'.waiting = w.waiting := waiting_eq fun fileId => by rw [pending]
    rw [waiting] at some
    exact busy key kept some
  present fileId some := by
    rw [pending] at some
    exact present fileId some
  since r member := by
    rw [requests] at member
    exact (accounted.since r member).trans written.length_le
  marks a member := by
    rw [answers] at member
    exact (accounted.marks a member).trans written.length_le
  saved a member success := by
    rw [answers] at member
    exact (accounted.saved a member success).mono (accounted.marks a member) (fun r => requests ▸ id) written
  tasked := tasked

theorem AccountedBut.continue (accounted : AccountedBut free w) (continues : Continues w.server s')
    (pending : s'.buffers.pendingRequests = w.tracker.pendingRequests) : AccountedBut free { w with server := s' } :=
  accounted.frame rfl rfl (prefix_refl _) pending (fun key kept some => (accounted.busy key kept some).mono continues)
    (fun fileId some => continues.buffers fileId (accounted.present fileId some)) (continues.tasked accounted.tasked)

theorem Asks.fresh {requestId : RequestId} {kind : PendingBufferRequestKind} (asks : w.Asks connId requestId) :
    (⟨requestId, connId, kind⟩ : PendingBufferRequest) ∉ w.book.asked.map Prod.snd := by
  unfold book
  rw [List.map_map, List.mem_map]
  rintro ⟨r, member, same⟩
  have same : r.pending = ⟨requestId, connId, kind⟩ := same
  exact asks.2 r member (congrArg PendingBufferRequest.connectionId same) (congrArg PendingBufferRequest.requestId same)

theorem AccountedBut.ask (accounted : AccountedBut free w) (fresh : pending ∉ w.book.asked.map Prod.snd)
    (continues : Continues w.server s') (tracked : s'.buffers.pendingRequests = w.tracker.pendingRequests)
    (present : (s'.globalBuffers.buffers.get? fileId).isSome)
    (busy : ({ w with server := s' } : World).Busy (some fileId, pending.kind)) :
    AccountedBut free
      (w.handle pending (some fileId) ([], s'.withTracker (s'.buffers.insertPending fileId pending))) := by
  let asked := w.handle pending (some fileId) ([], s'.withTracker (s'.buffers.insertPending fileId pending))
  have values : ∀ other, asked.tracker.pendingRequests.values other =
      if other = fileId then w.tracker.pendingRequests.values fileId ++ [pending]
      else w.tracker.pendingRequests.values other := by
    intro other
    rw [← tracked]
    exact ServerBufferTracker.values_insertPending
  have here : asked.waiting (some fileId, pending.kind) = w.waiting (some fileId, pending.kind) ++ [pending] := by
    show (asked.tracker.pendingRequests.values fileId).filter _ = _
    rw [values, if_pos rfl, filter_append, filter_cons_of_pos (by simp)]
    rfl
  have others : ∀ other ≠ (some fileId, pending.kind), asked.waiting other = w.waiting other := by
    intro other apart
    obtain ⟨otherFile, kind⟩ := other
    cases otherFile with
    | none => rfl
    | some id =>
      show (asked.tracker.pendingRequests.values id).filter _ = (w.tracker.pendingRequests.values id).filter _
      rw [values]
      split_ifs with same
      · subst same
        rw [filter_append, filter_cons_of_neg]
        · exact append_nil _
        · simp only [decide_eq_true_eq]
          exact fun sameKind => apart (by rw [sameKind])
      · rfl
  refine ⟨?_, ?_, ?_, ?_, ?_, ?_, continues_withTracker.tasked (continues.tasked accounted.tasked)⟩
  · have balanced := accounted.balanced.ask fresh here others
    unfold book at balanced ⊢
    have requests : asked.requests.map (fun r => ((r.fileId, r.pending.kind), r.pending)) =
        w.requests.map (fun r => ((r.fileId, r.pending.kind), r.pending)) ++ [((some fileId, pending.kind), pending)] :=
      map_append
    have answers : asked.answers = w.answers := append_nil _
    rw [show (w.handle pending (some fileId) ([], s'.withTracker (s'.buffers.insertPending fileId pending))) = asked from rfl,
      requests, answers]
    exact balanced
  · intro key kept some
    by_cases same : key = (Option.some fileId, pending.kind)
    · rw [same]
      exact busy.mono continues_withTracker
    · have some : w.waiting key ≠ [] := others key same ▸ some
      exact (accounted.busy key kept some).mono (continues.trans continues_withTracker)
  · intro other some
    by_cases same : other = fileId
    · rw [same]
      exact present
    · have some : w.tracker.pendingRequests.values other ≠ [] := by
        have split := values other
        rw [if_neg same] at split
        exact split ▸ some
      exact continues.buffers other (accounted.present other some)
  · intro r member
    rcases List.mem_append.mp member with old | new
    · exact accounted.since r old
    · rw [List.mem_singleton.mp new]
      exact Nat.le_refl _
  · intro a member
    have member : a ∈ w.answers := by simpa [handle, answer] using member
    exact accounted.marks a member
  · intro a member success
    have member : a ∈ w.answers := by simpa [handle, answer] using member
    exact (accounted.saved a member success).mono (accounted.marks a member) (fun r => mem_append_left _)
      (prefix_refl _)

theorem AccountedBut.reply (accounted : AccountedBut free w) (fresh : pending ∉ w.book.asked.map Prod.snd)
    (continues : Continues w.server s') (tracked : s'.buffers.pendingRequests = w.tracker.pendingRequests)
    {file : Option FileId} {body : ResponseBody} (unsaved : body ≠ .saveSuccess) :
    AccountedBut free (w.handle pending file ([⟨pending, body⟩], s')) := by
  let replied := w.handle pending file ([⟨pending, body⟩], s')
  have waiting : replied.waiting = w.waiting := waiting_eq fun fileId => by rw [← tracked]; rfl
  refine ⟨?_, ?_, ?_, ?_, ?_, ?_, continues.tasked accounted.tasked⟩
  · have balanced : RequestBook.Balanced { w.book with
        asked := w.book.asked ++ [((file, pending.kind), pending)], answered := w.book.answered ++ [pending] } :=
      accounted.balanced.reply fresh
    unfold book at balanced ⊢
    have requests : replied.requests.map (fun r => ((r.fileId, r.pending.kind), r.pending)) =
        w.requests.map (fun r => ((r.fileId, r.pending.kind), r.pending)) ++ [((file, pending.kind), pending)] :=
      map_append
    have answers : replied.answers.map (·.response.request) = w.answers.map (·.response.request) ++ [pending] :=
      map_append
    rw [show w.handle pending file ([⟨pending, body⟩], s') = replied from rfl, requests, answers, waiting]
    exact balanced
  · intro key kept some
    have some : w.waiting key ≠ [] := waiting ▸ some
    exact (accounted.busy key kept some).mono continues
  · intro fileId some
    have some : w.tracker.pendingRequests.values fileId ≠ [] := tracked ▸ some
    exact continues.buffers fileId (accounted.present fileId some)
  · intro r member
    rcases List.mem_append.mp member with old | new
    · exact accounted.since r old
    · rw [List.mem_singleton.mp new]
      exact Nat.le_refl _
  · intro a member
    rcases List.mem_append.mp member with old | new
    · exact accounted.marks a old
    · rw [List.mem_singleton.mp new]
      exact Nat.le_refl _
  · intro a member success
    rcases List.mem_append.mp member with old | new
    · exact (accounted.saved a old success).mono (accounted.marks a old) (fun r => mem_append_left _)
        (prefix_refl _)
    · rw [List.mem_singleton.mp new] at success
      exact absurd success unsaved

section Draining

variable {kind : PendingBufferRequestKind} {body : ResponseBody}

theorem takePending_eq : ∃ pending,
    s.takePending fileId kind body = (((s.buffers.pendingRequests.values fileId).filter (·.kind = kind)).map (⟨·, body⟩),
        s.withTracker { s.buffers with pendingRequests := pending }) ∧
      ∀ other, pending.values other = if other = fileId then (s.buffers.pendingRequests.values fileId).filter (·.kind ≠ kind)
        else s.buffers.pendingRequests.values other := by
  obtain ⟨pending, taken, values⟩ := @ServerBufferTracker.takePendingByKind_eq fileId s.buffers kind
  refine ⟨pending, ?_, values⟩
  unfold takePending
  rw [taken]

theorem waiting_takePending : (w.answer (s.takePending fileId kind body)).waiting key =
    if key = (some fileId, kind) then [] else ({ w with server := s } : World).waiting key := by
  obtain ⟨pending, taken, values⟩ := @takePending_eq s fileId kind body
  rw [taken]
  obtain ⟨otherFile, otherKind⟩ := key
  cases otherFile with
  | none => rfl
  | some other =>
    show (pending.values other).filter _ = if _ then [] else (s.buffers.pendingRequests.values other).filter _
    rw [values]
    by_cases sameFile : other = fileId
    · rw [if_pos sameFile, sameFile, List.filter_filter]
      by_cases sameKind : otherKind = kind
      · rw [if_pos (by rw [sameKind])]
        apply List.filter_eq_nil_iff.mpr
        simp [sameKind]
      · rw [if_neg (by simpa using sameKind)]
        refine filter_congr fun r _ => ?_
        by_cases isKind : r.kind = otherKind
        · simp [isKind, sameKind]
        · simp [isKind]
    · rw [if_neg sameFile, if_neg (by simp [sameFile])]

theorem AccountedBut.drain (accounted : AccountedBut free w)
    (written : body = .saveSuccess → ∀ r ∈ w.requests, r.pending ∈ w.waiting (some fileId, kind) → r.fileId = some fileId →
      (fileId, r.content) ∈ w.written.drop r.since) :
    AccountedBut (fun key => free key ∧ key ≠ (some fileId, kind)) (w.answer (w.server.takePending fileId kind body)) := by
  let drained := w.answer (w.server.takePending fileId kind body)
  have here : drained.waiting (some fileId, kind) = [] := waiting_takePending.trans (if_pos rfl)
  have others : ∀ other ≠ (some fileId, kind), drained.waiting other = w.waiting other :=
    fun other apart => waiting_takePending.trans (if_neg apart)
  obtain ⟨pending, taken, values⟩ := @takePending_eq w.server fileId kind body
  have answers : drained.answers = w.answers ++ (w.waiting (some fileId, kind)).map (⟨⟨·, body⟩, w.written.length⟩) := by
    show w.answers ++ (w.server.takePending fileId kind body).1.map _ = _
    rw [taken, List.map_map]
    rfl
  have server : drained.server = w.server.withTracker { w.tracker with pendingRequests := pending } := by
    show (w.server.takePending fileId kind body).2 = _
    rw [taken]
    rfl
  refine ⟨?_, ?_, ?_, accounted.since, ?_, ?_, ?_⟩
  · have balanced := accounted.balanced.drain here others
    unfold book at balanced ⊢
    have drainedAnswers : drained.answers.map (·.response.request) =
        w.answers.map (·.response.request) ++ w.waiting (some fileId, kind) := by
      rw [answers, map_append, List.map_map]
      exact congrArg _ (List.map_id _)
    rw [show w.answer _ = drained from rfl, drainedAnswers]
    exact balanced
  · intro key kept some
    by_cases same : key = (Option.some fileId, kind)
    · rw [same] at some
      exact absurd here some
    · have waits : w.waiting key ≠ [] := others key same ▸ some
      have continues : Continues w.server drained.server := by
        rw [server]
        exact continues_withTracker
      exact (accounted.busy key (fun isFree => kept ⟨isFree, same⟩) waits).mono continues
  · intro other some
    have some : drained.server.buffers.pendingRequests.values other ≠ [] := some
    show (drained.server.globalBuffers.buffers.get? other).isSome
    rw [server] at some ⊢
    refine accounted.present other ?_
    have some : pending.values other ≠ [] := some
    rw [values] at some
    split_ifs at some with same
    · rw [same]
      exact fun nothing => some (by rw [show w.server.buffers.pendingRequests.values fileId = [] from nothing]; rfl)
    · exact some
  · intro a member
    have member : a ∈ drained.answers := member
    rw [answers] at member
    rcases List.mem_append.mp member with old | new
    · exact accounted.marks a old
    · obtain ⟨request, -, rfl⟩ := List.mem_map.mp new
      exact Nat.le_refl _
  · intro a member success
    have member : a ∈ drained.answers := member
    rw [answers] at member
    rcases List.mem_append.mp member with old | new
    · exact accounted.saved a old success
    · obtain ⟨request, waits, rfl⟩ := List.mem_map.mp new
      have asked := accounted.balanced.waitingAsked (some fileId, kind) request waits
      obtain ⟨r, handled, same⟩ := List.mem_map.mp asked
      simp only [Prod.mk.injEq] at same
      obtain ⟨⟨isFile, -⟩, rfl⟩ := same
      refine ⟨r, handled, fileId, rfl, isFile, ?_⟩
      show _ ∈ (w.written.take w.written.length).drop r.since
      rw [take_length]
      exact written success r handled waits isFile
  · show Tasked drained.server
    rw [server]
    exact continues_withTracker.tasked accounted.tasked

end Draining

end World

end Warp.Remote.BufferServer
