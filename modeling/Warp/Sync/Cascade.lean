import Warp.Sync.Queue

namespace Warp.Sync

open List

variable {id : QueueItemId} {item : QueueItem} {s s' t t' : SyncQueue}

def ids (entries : List (QueueItemId × QueueItem)) : List QueueItemId := entries.map Prod.fst

@[simp]
theorem ids_append (xs ys : List (QueueItemId × QueueItem)) : ids (xs ++ ys) = ids xs ++ ids ys := map_append

@[simp]
theorem ids_cons (entry : QueueItemId × QueueItem) (entries : List (QueueItemId × QueueItem)) :
    ids (entry :: entries) = entry.1 :: ids entries := rfl

@[simp]
theorem ids_nil : ids [] = [] := rfl

variable {entries : List (QueueItemId × QueueItem)}

theorem mem_ids {entry : QueueItemId × QueueItem} (member : entry ∈ entries) :
    entry.1 ∈ ids entries := List.mem_map_of_mem member

theorem mem_ids_iff : id ∈ ids entries ↔ ∃ item, (id, item) ∈ entries := by
  simp [ids]

/-- The uids under which a failing item no longer waits, each with the event of its failure. -/
def QueueItem.failures (self : SyncQueue) : QueueItem → List (ObjectUid × SyncQueueEvent)
  | createObject info _ _ => [(.clientId info.id, .objectCreationFailure (.other (.clientId info.id) info.initiatedBy))]
  | createWorkflow info _ => [(.clientId info.id, .objectCreationFailure (.other (.clientId info.id) info.initiatedBy))]
  | bulkCreateGenericStringObjects _ objects => objects.map fun object =>
      (.clientId object.id, .objectCreationFailure (.other (.clientId object.id) object.initiatedBy))
  | update _ _ id _ => [(self.updatedSyncId id, .objectUpdateFailure (self.updatedSyncId id))]
  | updateWorkflow _ id _ => [(self.updatedSyncId id, .objectUpdateFailure (self.updatedSyncId id))]
  | recordObjectAction id _ timestamp _ => [(id, .reportObjectActionFailed id timestamp)]

theorem QueueItem.failures_congr (same : s'.clientIdToServer = s.clientIdToServer) (item : QueueItem) :
    item.failures s' = item.failures s := by
  have same' : s'.updatedSyncId = s.updatedSyncId := by
    funext id
    cases id with
    | clientId id => simp only [SyncQueue.updatedSyncId, SyncQueue.tryServerId, same]
    | serverId id => rfl
  cases item <;> simp only [QueueItem.failures, same']

namespace SyncQueue

def eventsOf (self : SyncQueue) (id : QueueItemId) : List SyncQueueEvent :=
  (self.events.filter fun emitted => emitted.itemId = id).map Emitted.event

@[simp]
theorem eventsOf_emit_self (event : SyncQueueEvent) : (s.emit id event).eventsOf id = s.eventsOf id ++ [event] := by
  simp [eventsOf, emit]

theorem eventsOf_emit {other : QueueItemId} (event : SyncQueueEvent) (ne : other ≠ id) :
    (s.emit id event).eventsOf other = s.eventsOf other := by
  simp [eventsOf, emit, Ne.symm ne]

theorem mem_stopWaiting {uid other : ObjectUid} {i : QueueItemId} :
    i ∈ (s.stopWaiting id uid).waitingResponse other ↔ i ∈ s.waitingResponse other ∧ ¬ (i = id ∧ other = uid) := by
  unfold stopWaiting
  dsimp only
  by_cases same : other = uid
  · rw [if_pos same, Finset.mem_erase]
    simp [same, and_comm]
  · rw [if_neg same]
    simp [same]

def reportFailures (cascade : QueueItemId → SyncQueue → SyncQueue) (id : QueueItemId) (self : SyncQueue)
    (reports : List (ObjectUid × SyncQueueEvent)) : SyncQueue :=
  reports.foldl (fun self report => (cascade id (self.stopWaiting id report.1)).emit id report.2) self

def without (self : SyncQueue) (id : QueueItemId) : SyncQueue := (self.removeIdFromQueue id).setDependencies id none

theorem failDependent_eq (cascade : QueueItemId → SyncQueue → SyncQueue) (entry : QueueItemId × QueueItem) :
    s.failDependent cascade entry = if (s.queueDependencies entry.1).isNone then s.removeIdFromQueue entry.1
      else (s.without entry.1).reportFailures cascade entry.1 (entry.2.failures s) := by
  unfold failDependent
  by_cases gone : (s.queueDependencies entry.1).isNone
  · exact (if_pos gone).trans (if_pos gone).symm
  rw [if_neg gone, if_neg (show ¬ ((s.removeIdFromQueue entry.1).queueDependencies entry.1).isNone from gone)]
  obtain ⟨id, item⟩ := entry
  cases item with
  | bulkCreateGenericStringObjects owner objects =>
    dsimp only
    rw [QueueItem.failures, reportFailures, foldl_map]
    rfl
  | _ => rfl

/-- After a failure, whatever depended on the item has failed as well. -/
structure Failed (id : QueueItemId) (reports : List (ObjectUid × SyncQueueEvent))
    (failed : List (QueueItemId × QueueItem)) (s s' : SyncQueue) : Prop where
  same : s' = { s with
    queue := s.queue.filter fun entry => entry.1 ∉ ids failed
    queueDependencies := fun i => if i ∈ ids failed then none else s.queueDependencies i
    waitingResponse := s'.waitingResponse
    events := s'.events }
  mem : ∀ entry ∈ failed, entry ∈ s.queue
  cause : ∀ entry ∈ failed, ∃ dependencies, s.queueDependencies entry.1 = some dependencies ∧
    (id ∈ dependencies ∨ ∃ other ∈ ids failed, other ∈ dependencies)
  root : failed ≠ [] → ∃ entry ∈ s.queue, ∃ dependencies, s.queueDependencies entry.1 = some dependencies ∧ id ∈ dependencies
  nodup : (ids failed).Nodup
  clean : ∀ entry ∈ s'.queue, ∀ dependencies, s'.queueDependencies entry.1 = some dependencies →
    ∀ other ∈ ids failed, other ∉ dependencies
  waits : ∀ uid, ∀ i ∈ s'.waitingResponse uid, i ∈ s.waitingResponse uid
  waited : ∀ uid, ∀ i ∈ s.waitingResponse uid,
    i ∈ s'.waitingResponse uid ∨ i ∈ ids failed ∨ i = id ∧ uid ∈ reports.map Prod.fst
  told : ∀ uid ∈ reports.map Prod.fst, id ∉ s'.waitingResponse uid
  own : s'.eventsOf id = s.eventsOf id ++ reports.map Prod.snd
  dependents : ∀ entry ∈ failed, s'.eventsOf entry.1 = s.eventsOf entry.1 ++ (entry.2.failures s).map Prod.snd
  others : ∀ i, i ≠ id → i ∉ ids failed → s'.eventsOf i = s.eventsOf i

def Closed (id : QueueItemId) (s : SyncQueue) : Prop :=
  ∀ entry ∈ s.queue, ∀ dependencies, s.queueDependencies entry.1 = some dependencies → id ∉ dependencies

def Reporting (s : SyncQueue) : Prop :=
  ∀ entry ∈ s.queue, ∀ dependencies, s.queueDependencies entry.1 = some dependencies → dependencies ≠ ∅ →
    entry.2.failures s ≠ []

namespace Failed

variable {reports : List (ObjectUid × SyncQueueEvent)} {failed more : List (QueueItemId × QueueItem)}

section

variable (result : Failed id reports failed s s')
include result

theorem queue :
    s'.queue = s.queue.filter fun entry => entry.1 ∉ ids failed := by
  rw [result.same]

theorem queueDependencies (i : QueueItemId) :
    s'.queueDependencies i = if i ∈ ids failed then none else s.queueDependencies i := by
  rw [result.same]

theorem clientIdToServer : s'.clientIdToServer = s.clientIdToServer := by
  rw [result.same]

end

variable {entry : QueueItemId × QueueItem} {dependencies : Finset QueueItemId}

theorem mem_queue (result : Failed id reports failed s s') :
    entry ∈ s'.queue ↔ entry ∈ s.queue ∧ entry.1 ∉ ids failed := by
  simp [result.queue]

theorem of_dependencies (result : Failed id reports failed s s') {i : QueueItemId}
    (known : s'.queueDependencies i = some dependencies) :
    i ∉ ids failed ∧ s.queueDependencies i = some dependencies := by
  rw [result.queueDependencies] at known
  by_cases member : i ∈ ids failed
  · rw [if_pos member] at known
    cases known
  · rw [if_neg member] at known
    exact ⟨member, known⟩

theorem refl (id : QueueItemId) (s : SyncQueue) : Failed id [] [] s s where
  same := by simp
  mem := by simp
  cause := by simp
  root some := absurd rfl some
  nodup := nodup_nil
  clean := by simp
  waits _ _ member := member
  waited _ _ member := .inl member
  told := by simp
  own := by simp
  dependents := by simp
  others _ _ _ := rfl

theorem reporting (result : Failed id reports failed s s') (before : s.Reporting) : s'.Reporting := by
  intro entry queued dependencies known some
  rw [QueueItem.failures_congr result.clientIdToServer]
  exact before entry (result.mem_queue.mp queued).1 dependencies (result.of_dependencies known).2 some

theorem length_le (result : Failed id reports failed s s') : s'.queue.length ≤ s.queue.length := by
  rw [result.queue]
  exact length_filter_le _ _

theorem report (first : Failed id reports failed s t) (absent : id ∉ ids s.queue) {uid : ObjectUid}
    (event : SyncQueueEvent) (second : Failed id [] more (t.stopWaiting id uid) t') :
    Failed id (reports ++ [(uid, event)]) (failed ++ more) s (t'.emit id event) := by
  have inQueue : ∀ entry ∈ more, entry ∈ s.queue ∧ entry.1 ∉ ids failed := fun entry member =>
    first.mem_queue.mp (second.mem entry member)
  have apart : ∀ i ∈ ids more, i ∉ ids failed := by
    intro i member
    obtain ⟨item, member⟩ := mem_ids_iff.mp member
    exact (inQueue _ member).2
  have absentMore : id ∉ ids more := by
    intro member
    obtain ⟨item, member⟩ := mem_ids_iff.mp member
    exact absent (mem_ids (inQueue _ member).1)
  have absentFailed : id ∉ ids failed := by
    intro member
    obtain ⟨item, member⟩ := mem_ids_iff.mp member
    exact absent (mem_ids (first.mem _ member))
  have unchanged : (t.stopWaiting id uid).eventsOf = t.eventsOf := rfl
  constructor
  case same =>
    rw [second.same, first.same]
    simp only [emit, stopWaiting, List.filter_filter, ids_append, mem_append, not_or, Bool.decide_and]
    congr 1
    · exact filter_congr fun _ _ => Bool.and_comm _ _
    · funext i
      by_cases one : i ∈ ids failed <;> by_cases two : i ∈ ids more <;> simp [one, two]
  case mem =>
    intro entry member
    rcases List.mem_append.mp member with member | member
    · exact first.mem entry member
    · exact (inQueue entry member).1
  case cause =>
    intro entry member
    rcases List.mem_append.mp member with member | member
    · obtain ⟨dependencies, known, cause⟩ := first.cause entry member
      refine ⟨dependencies, known, cause.imp_right fun ⟨other, otherFailed, depends⟩ => ?_⟩
      exact ⟨other, by simp [otherFailed], depends⟩
    · obtain ⟨dependencies, known, cause⟩ := second.cause entry member
      refine ⟨dependencies, (first.of_dependencies known).2, cause.imp_right fun ⟨other, otherFailed, depends⟩ => ?_⟩
      exact ⟨other, by simp [otherFailed], depends⟩
  case root =>
    intro some
    by_cases none : failed = []
    · obtain ⟨entry, queued, dependencies, known, depends⟩ := second.root (by simpa [none] using some)
      exact ⟨entry, (first.mem_queue.mp queued).1, dependencies, (first.of_dependencies known).2, depends⟩
    · exact first.root none
  case nodup =>
    rw [ids_append]
    exact List.Nodup.append first.nodup second.nodup fun i one two => apart i two one
  case clean =>
    intro entry queued dependencies known other member
    have queued' : entry ∈ t.queue := (second.mem_queue.mp queued).1
    rw [ids_append, mem_append] at member
    rcases member with member | member
    · exact first.clean entry queued' dependencies (second.of_dependencies known).2 other member
    · exact second.clean entry queued dependencies known other member
  case waits =>
    intro uid' i member
    exact first.waits uid' i (mem_stopWaiting.mp (second.waits uid' i member)).1
  case waited =>
    intro uid' i member
    rcases first.waited uid' i member with member | member | ⟨rfl, reported⟩
    · by_cases here : i = id ∧ uid' = uid
      · exact .inr (.inr ⟨here.1, by simp [here.2]⟩)
      rcases second.waited uid' i (mem_stopWaiting.mpr ⟨member, here⟩) with member | member | ⟨-, none⟩
      · exact .inl member
      · exact .inr (.inl (by simp [member]))
      · exact absurd none not_mem_nil
    · exact .inr (.inl (by simp [member]))
    · exact .inr (.inr ⟨rfl, by simp only [map_append, mem_append, reported, true_or]⟩)
  case told =>
    intro uid' member waiting
    obtain ⟨waiting, other⟩ := mem_stopWaiting.mp (second.waits uid' id waiting)
    rw [map_append, mem_append] at member
    rcases member with member | member
    · exact first.told uid' member waiting
    · exact other ⟨rfl, List.mem_singleton.mp member⟩
  case own =>
    rw [eventsOf_emit_self, second.own, unchanged, first.own]
    simp
  case dependents =>
    intro entry member
    have ne : entry.1 ≠ id := by
      rintro rfl
      rcases List.mem_append.mp member with member | member
      · exact absentFailed (mem_ids member)
      · exact absentMore (mem_ids member)
    rw [eventsOf_emit event ne]
    rcases List.mem_append.mp member with member | member
    · rw [second.others _ ne fun later => apart _ later (mem_ids member), unchanged]
      exact first.dependents entry member
    · rw [second.dependents entry member, unchanged, first.others _ ne (inQueue entry member).2,
        QueueItem.failures_congr (show (t.stopWaiting id uid).clientIdToServer = _ from first.clientIdToServer)]
  case others =>
    intro i ne none
    rw [ids_append, mem_append, not_or] at none
    rw [eventsOf_emit event ne, second.others i ne none.2, unchanged, first.others i ne none.1]

theorem dependent (first : Failed id [] failed s t) (absent : id ∉ ids s.queue) (queued : entry ∈ t.queue)
    (known : s.queueDependencies entry.1 = some dependencies) (depends : id ∈ dependencies)
    (second : Failed entry.1 (entry.2.failures s) more (t.without entry.1) t') (closed : Closed entry.1 t') :
    Failed id [] (failed ++ entry :: more) s t' := by
  obtain ⟨queuedBefore, survived⟩ := first.mem_queue.mp queued
  have inQueue : ∀ other ∈ more, other ∈ s.queue ∧ other.1 ∉ ids failed ∧ other.1 ≠ entry.1 := by
    intro other member
    obtain ⟨member, ne⟩ := List.mem_filter.mp (second.mem other member)
    obtain ⟨member, survived⟩ := first.mem_queue.mp member
    exact ⟨member, survived, of_decide_eq_true ne⟩
  have apart : ∀ i ∈ ids more, i ∉ ids failed ∧ i ≠ entry.1 := by
    intro i member
    obtain ⟨item, member⟩ := mem_ids_iff.mp member
    exact (inQueue _ member).2
  have ne : id ≠ entry.1 := fun same => absent (same ▸ mem_ids queuedBefore)
  have absentMore : id ∉ ids more := by
    intro member
    obtain ⟨item, member⟩ := mem_ids_iff.mp member
    exact absent (mem_ids (inQueue _ member).1)
  have unchanged : (t.without entry.1).eventsOf = t.eventsOf := rfl
  have unfailed : ∀ {i : QueueItemId} {dependencies : Finset QueueItemId},
      (t.without entry.1).queueDependencies i = some dependencies →
      i ≠ entry.1 ∧ t.queueDependencies i = some dependencies := by
    intro i dependencies known
    by_cases same : i = entry.1
    · rw [show (t.without entry.1).queueDependencies i = none from if_pos same] at known
      cases known
    · exact ⟨same, (if_neg same).symm.trans known⟩
  constructor
  case same =>
    rw [second.same, first.same]
    simp only [without, removeIdFromQueue, setDependencies, List.filter_filter]
    congr 1
    · apply filter_congr
      intro other _
      by_cases one : other.1 ∈ ids failed <;> by_cases two : other.1 ∈ ids more <;> by_cases three : other.1 = entry.1 <;>
        simp [one, two, three]
    · funext i
      by_cases one : i ∈ ids failed <;> by_cases two : i ∈ ids more <;> by_cases three : i = entry.1 <;>
        simp [one, two, three]
  case mem =>
    intro other member
    rcases List.mem_append.mp member with member | member
    · exact first.mem other member
    rcases List.mem_cons.mp member with rfl | member
    · exact queuedBefore
    · exact (inQueue other member).1
  case cause =>
    intro other member
    rcases List.mem_append.mp member with member | member
    · obtain ⟨dependencies, known, cause⟩ := first.cause other member
      refine ⟨dependencies, known, cause.imp_right fun ⟨i, failed, depends⟩ => ⟨i, ?_, depends⟩⟩
      rw [ids_append]
      exact mem_append_left _ failed
    rcases List.mem_cons.mp member with rfl | member
    · exact ⟨dependencies, known, .inl depends⟩
    · obtain ⟨dependencies, known, cause⟩ := second.cause other member
      refine ⟨dependencies, (first.of_dependencies (unfailed known).2).2, .inr ?_⟩
      rw [ids_append, ids_cons]
      rcases cause with depends | ⟨i, failed, depends⟩
      · exact ⟨entry.1, mem_append_right _ mem_cons_self, depends⟩
      · exact ⟨i, mem_append_right _ (mem_cons_of_mem _ failed), depends⟩
  case root => exact fun _ => ⟨entry, queuedBefore, dependencies, known, depends⟩
  case nodup =>
    rw [ids_append, ids_cons]
    apply List.Nodup.append first.nodup
    · exact List.nodup_cons.mpr ⟨fun member => (apart _ member).2 rfl, second.nodup⟩
    · intro i one two
      rcases List.mem_cons.mp two with rfl | two
      · exact survived one
      · exact (apart i two).1 one
  case clean =>
    intro other queued' dependencies known i member
    have queued'' : other ∈ t.queue := (List.mem_filter.mp (second.mem_queue.mp queued').1).1
    rw [ids_append, ids_cons, mem_append, mem_cons] at member
    rcases member with member | rfl | member
    · exact first.clean other queued'' dependencies (unfailed (second.of_dependencies known).2).2 i member
    · exact closed other queued' dependencies known
    · exact second.clean other queued' dependencies known i member
  case waits =>
    intro uid i member
    exact first.waits uid i (second.waits uid i member)
  case waited =>
    intro uid i member
    rw [ids_append, ids_cons, mem_append, mem_cons]
    rcases first.waited uid i member with member | member | ⟨-, none⟩
    · rcases second.waited uid i member with member | member | ⟨same, -⟩
      · exact .inl member
      · exact .inr (.inl (.inr (.inr member)))
      · exact .inr (.inl (.inr (.inl same)))
    · exact .inr (.inl (.inl member))
    · exact absurd none not_mem_nil
  case told => exact fun uid none => absurd none not_mem_nil
  case own =>
    rw [second.others id ne absentMore, unchanged, first.own]
  case dependents =>
    intro other member
    rcases List.mem_append.mp member with member | member
    · have otherNe : other.1 ≠ entry.1 := fun same => survived (same ▸ mem_ids member)
      rw [second.others _ otherNe fun later => (apart _ later).1 (mem_ids member), unchanged]
      exact first.dependents other member
    have otherNe : other.1 ≠ id := by
      rintro rfl
      rcases List.mem_cons.mp member with rfl | member
      · exact ne rfl
      · exact absentMore (mem_ids member)
    rcases List.mem_cons.mp member with rfl | member
    · rw [second.own, unchanged, first.others _ otherNe survived]
    · rw [second.dependents other member, unchanged, first.others _ otherNe (inQueue other member).2.1,
        QueueItem.failures_congr (show (t.without entry.1).clientIdToServer = _ from first.clientIdToServer)]
  case others =>
    intro i otherNe none
    rw [ids_append, ids_cons, mem_append, mem_cons, not_or, not_or] at none
    rw [second.others i none.2.1 none.2.2, unchanged, first.others i otherNe none.1]

end Failed

section Cascade

variable {cascade : QueueItemId → SyncQueue → SyncQueue} {fuel : ℕ} {failed : List (QueueItemId × QueueItem)}

/-- What `handle_dependency_failure` does to a queue of at most some length. -/
def Cascades (cascade : QueueItemId → SyncQueue → SyncQueue) (fuel : ℕ) : Prop :=
  ∀ id s, s.queue.length ≤ fuel → id ∉ ids s.queue → s.Reporting →
    ∃ failed, Failed id [] failed s (cascade id s) ∧ Closed id (cascade id s)

theorem Cascades.reports (cascades : Cascades cascade fuel) (absent : id ∉ ids s.queue) (reporting : s.Reporting)
    (short : s.queue.length ≤ fuel) :
    ∀ {reports earlier : List (ObjectUid × SyncQueueEvent)} {failed : List (QueueItemId × QueueItem)} {t : SyncQueue},
      Failed id earlier failed s t → ∃ failed, Failed id (earlier ++ reports) failed s (t.reportFailures cascade id reports) ∧
        (Closed id t ∨ reports ≠ [] → Closed id (t.reportFailures cascade id reports)) := by
  intro reports
  induction reports with
  | nil =>
    intro earlier failed t first
    refine ⟨failed, by rwa [append_nil], fun closed => closed.resolve_right fun some => some rfl⟩
  | cons report reports ih =>
    intro earlier failed t first
    have absent' : id ∉ ids t.queue := by
      intro member
      obtain ⟨item, member⟩ := mem_ids_iff.mp member
      exact absent (mem_ids (first.mem_queue.mp member).1)
    obtain ⟨more, second, closed⟩ := cascades id (t.stopWaiting id report.1) (first.length_le.trans short) absent'
      (first.reporting reporting)
    obtain ⟨all, result, closed'⟩ := ih (first.report absent report.2 second)
    refine ⟨all, ?_, fun _ => closed' (.inl closed)⟩
    rwa [append_assoc] at result

variable {reports : List (ObjectUid × SyncQueueEvent)}

theorem Cascades.reportFailures (cascades : Cascades cascade fuel) (absent : id ∉ ids s.queue)
    (reporting : s.Reporting) (short : s.queue.length ≤ fuel) (some : reports ≠ []) :
    ∃ failed, Failed id reports failed s (s.reportFailures cascade id reports) ∧
      Closed id (s.reportFailures cascade id reports) := by
  obtain ⟨failed, result, closed⟩ := cascades.reports absent reporting short (.refl id s)
  exact ⟨failed, result, closed (.inr some)⟩

theorem Cascades.dependents (cascades : Cascades cascade fuel) (absent : id ∉ ids s.queue) (reporting : s.Reporting)
    (short : s.queue.length ≤ fuel + 1) :
    ∀ {entries failed : List (QueueItemId × QueueItem)} {t : SyncQueue},
      (∀ entry ∈ entries, entry ∈ s.queue ∧ ∃ dependencies, s.queueDependencies entry.1 = some dependencies ∧
        id ∈ dependencies) → Failed id [] failed s t →
      ∃ failed', Failed id [] failed' s (entries.foldl (failDependent cascade) t) ∧
        ∀ i, i ∈ ids failed ∨ i ∈ ids entries → i ∈ ids failed' := by
  intro entries
  induction entries with
  | nil =>
    intro failed t _ first
    exact ⟨failed, first, fun i member => member.resolve_right not_mem_nil⟩
  | cons entry entries ih =>
    intro failed t depends first
    obtain ⟨⟨queued, dependencies, known, member⟩, later⟩ := List.forall_mem_cons.mp depends
    rw [foldl_cons, failDependent_eq]
    by_cases gone : entry.1 ∈ ids failed
    · have none : (t.queueDependencies entry.1).isNone := by
        rw [first.queueDependencies, if_pos gone]
        rfl
      have unchanged : t.removeIdFromQueue entry.1 = t := by
        have all : t.queue.filter (fun other => other.1 ≠ entry.1) = t.queue := by
          apply List.filter_eq_self.mpr
          intro other member
          exact decide_eq_true fun same => (first.mem_queue.mp member).2 (same ▸ gone)
        unfold removeIdFromQueue
        rw [all]
      rw [if_pos none, unchanged]
      obtain ⟨failed', result, fallen⟩ := ih later first
      refine ⟨failed', result, fun i member => fallen i ?_⟩
      rw [ids_cons, mem_cons] at member
      rcases member with member | rfl | member
      · exact .inl member
      · exact .inl gone
      · exact .inr member
    · have known' : t.queueDependencies entry.1 = some dependencies := by
        rw [first.queueDependencies, if_neg gone, known]
      have queued' : entry ∈ t.queue := first.mem_queue.mpr ⟨queued, gone⟩
      have fewer : (t.without entry.1).queue.length < t.queue.length :=
        List.length_filter_lt_length_iff_exists.mpr ⟨entry, queued', by simp⟩
      have absent' : entry.1 ∉ ids (t.without entry.1).queue := by
        intro member
        obtain ⟨item, member⟩ := mem_ids_iff.mp member
        exact of_decide_eq_true (List.mem_filter.mp member).2 rfl
      have reporting' : (t.without entry.1).Reporting := by
        intro other member dependencies known some
        obtain ⟨member, ne⟩ := List.mem_filter.mp member
        have known : t.queueDependencies other.1 = Option.some dependencies :=
          (if_neg (of_decide_eq_true ne)).symm.trans known
        exact first.reporting reporting other member dependencies known some
      have same : entry.2.failures t = entry.2.failures s := QueueItem.failures_congr first.clientIdToServer entry.2
      have reports : entry.2.failures s ≠ [] :=
        reporting entry queued dependencies known (Finset.ne_empty_of_mem member)
      have short' : (t.without entry.1).queue.length ≤ fuel := by
        have := first.length_le
        omega
      obtain ⟨more, second, closed⟩ := cascades.reportFailures absent' reporting' short' reports
      rw [if_neg (by rw [known']; exact Bool.false_ne_true), same]
      obtain ⟨failed', result, fallen⟩ := ih later (first.dependent absent queued' known member second closed)
      refine ⟨failed', result, fun i member => fallen i ?_⟩
      rw [ids_cons, mem_cons] at member
      rw [ids_append, ids_cons, mem_append, mem_cons]
      rcases member with member | rfl | member
      · exact .inl (.inl member)
      · exact .inl (.inr (.inl rfl))
      · exact .inr member

theorem failDependents_cascades : ∀ fuel, Cascades (fun id self => failDependents fuel id self) fuel := by
  intro fuel
  induction fuel with
  | zero =>
    intro id s short _ _
    have none : s.queue = [] := eq_nil_of_length_eq_zero (Nat.le_zero.mp short)
    refine ⟨[], .refl id s, fun entry queued => ?_⟩
    have queued : entry ∈ s.queue := queued
    rw [none] at queued
    exact absurd queued not_mem_nil
  | succ fuel ih =>
    intro id s short absent reporting
    have depends : ∀ entry ∈ s.dependentObjects id, entry ∈ s.queue ∧ ∃ dependencies,
        s.queueDependencies entry.1 = some dependencies ∧ id ∈ dependencies := by
      intro entry member
      obtain ⟨queued, depends⟩ := List.mem_filter.mp member
      cases known : s.queueDependencies entry.1 with
      | none => rw [known] at depends; cases depends
      | some dependencies =>
        rw [known] at depends
        exact ⟨queued, dependencies, rfl, of_decide_eq_true depends⟩
    obtain ⟨failed, result, fallen⟩ := ih.dependents absent reporting short depends (.refl id s)
    refine ⟨failed, result, fun entry queued dependencies known member => ?_⟩
    obtain ⟨queued, survived⟩ := result.mem_queue.mp queued
    refine survived (fallen _ (.inr (mem_ids ?_)))
    apply List.mem_filter.mpr
    refine ⟨queued, ?_⟩
    rw [(result.of_dependencies known).2]
    exact decide_eq_true member

theorem handleDependencyFailure_spec (absent : id ∉ ids s.queue) (reporting : s.Reporting) :
    ∃ failed, Failed id [] failed s (handleDependencyFailure id s) ∧ Closed id (handleDependencyFailure id s) :=
  failDependents_cascades s.queue.length id s le_rfl absent reporting

theorem handleDependencyFailure_closed (closed : Closed id s) : handleDependencyFailure id s = s := by
  have none : s.dependentObjects id = [] := by
    apply List.filter_eq_nil_iff.mpr
    intro entry queued depends
    cases known : s.queueDependencies entry.1 with
    | none => rw [known] at depends; cases depends
    | some dependencies =>
      rw [known] at depends
      exact closed entry queued dependencies known (of_decide_eq_true depends)
  unfold handleDependencyFailure
  cases s.queue.length with
  | zero => rfl
  | succ fuel => rw [failDependents, none, foldl_nil]

theorem reportFailures_closed (closed : Closed id s) (reports : List (ObjectUid × SyncQueueEvent)) :
    s.reportFailures handleDependencyFailure id reports = { s with
      waitingResponse := (s.reportFailures handleDependencyFailure id reports).waitingResponse
      events := s.events ++ reports.map fun report => ⟨id, report.2⟩ } ∧
    ∀ uid i, (i ∈ (s.reportFailures handleDependencyFailure id reports).waitingResponse uid → i ∈ s.waitingResponse uid) ∧
      (i ≠ id → i ∈ s.waitingResponse uid →
        i ∈ (s.reportFailures handleDependencyFailure id reports).waitingResponse uid) := by
  induction reports generalizing s with
  | nil => exact ⟨by simp [reportFailures], fun uid i => ⟨fun member => member, fun _ member => member⟩⟩
  | cons report reports ih =>
    have first : handleDependencyFailure id (s.stopWaiting id report.1) = s.stopWaiting id report.1 :=
      handleDependencyFailure_closed closed
    have step : s.reportFailures handleDependencyFailure id (report :: reports) =
        ((s.stopWaiting id report.1).emit id report.2).reportFailures handleDependencyFailure id reports := by
      rw [reportFailures, foldl_cons, first, reportFailures]
    obtain ⟨same, waits⟩ := @ih ((s.stopWaiting id report.1).emit id report.2) closed
    refine ⟨?_, ?_⟩
    · rw [step, same]
      simp [stopWaiting, emit]
    · intro uid i
      rw [step]
      obtain ⟨before, after⟩ := waits uid i
      exact ⟨fun member => (mem_stopWaiting.mp (before member)).1,
        fun ne member => after ne (mem_stopWaiting.mpr ⟨member, fun own => ne own.1⟩)⟩

theorem reportFailures_spec (absent : id ∉ ids s.queue) (reporting : s.Reporting) (some : reports ≠ []) :
    ∃ failed, Failed id reports failed s (s.reportFailures handleDependencyFailure id reports) ∧
      Closed id (s.reportFailures handleDependencyFailure id reports) := by
  have cascades : Cascades handleDependencyFailure s.queue.length := by
    intro id s _ absent reporting
    exact handleDependencyFailure_spec absent reporting
  exact cascades.reportFailures absent reporting le_rfl some

end Cascade

end SyncQueue

end Warp.Sync
