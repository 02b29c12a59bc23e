import Warp.Sync.Invariant

namespace Warp.Sync

open List

variable {id : QueueItemId} {item : QueueItem} {s s' t t' : SyncQueue}

namespace SyncQueue

def Created (s : SyncQueue) (clientId : ClientId) (serverId : ServerId) : Prop :=
  ∃ id, ∃ event ∈ s.eventsOf id, event.created = some (clientId, serverId)

def Tied (s : SyncQueue) (named reported : ObjectUid) : Prop :=
  reported = named ∨ ∃ clientId serverId, named = .clientId clientId ∧ reported = .serverId serverId ∧
    s.Created clientId serverId

def Reported (s : SyncQueue) (id : QueueItemId) (item : QueueItem) : Prop :=
  ∃ order, order.Perm ((s.eventsOf id).map SyncQueueEvent.uid) ∧ List.Forall₂ s.Tied item.objects order

/-- The item is in exactly one of three places: in the queue, in flight, or finished. -/
def Accounted (s : SyncQueue) (id : QueueItemId) (item : QueueItem) : Prop :=
  (ids s.queue).count id = 1 ∧ (s.flights.map Flight.itemId).count id = 0 ∧ s.eventsOf id = [] ∨
  (ids s.queue).count id = 0 ∧ (s.flights.map Flight.itemId).count id = 1 ∧ s.eventsOf id = [] ∨
  (ids s.queue).count id = 0 ∧ (s.flights.map Flight.itemId).count id = 0 ∧ s.Reported id item

def Grown (s s' : SyncQueue) : Prop := ∀ i, s.eventsOf i <+: s'.eventsOf i

theorem Grown.refl (s : SyncQueue) : Grown s s := fun _ => prefix_refl _

theorem Grown.trans (first : Grown s t) (second : Grown t s') : Grown s s' := fun i => (first i).trans (second i)

theorem Grown.created (grown : Grown s s') {clientId : ClientId} {serverId : ServerId}
    (created : s.Created clientId serverId) : s'.Created clientId serverId := by
  obtain ⟨i, event, member, same⟩ := created
  exact ⟨i, event, (grown i).subset member, same⟩

theorem Grown.tied (grown : Grown s s') {named reported : ObjectUid} (tied : s.Tied named reported) :
    s'.Tied named reported := by
  rcases tied with same | ⟨clientId, serverId, isNamed, isReported, created⟩
  · exact .inl same
  · exact .inr ⟨clientId, serverId, isNamed, isReported, grown.created created⟩

theorem Grown.reported (grown : Grown s s') (same : s'.eventsOf id = s.eventsOf id) (reported : s.Reported id item) :
    s'.Reported id item := by
  obtain ⟨order, perm, tied⟩ := reported
  exact ⟨order, same ▸ perm, tied.imp fun _ _ => grown.tied⟩

theorem tied_refl (uids : List ObjectUid) : List.Forall₂ s.Tied uids uids := by
  induction uids with
  | nil => exact .nil
  | cons uid uids ih => exact .cons (.inl rfl) ih

theorem Failed.grown {reports : List (ObjectUid × SyncQueueEvent)} {failed : List (QueueItemId × QueueItem)}
    (result : Failed id reports failed s s') : Grown s s' := by
  intro i
  by_cases own : i = id
  · rw [own, result.own]
    exact prefix_append _ _
  by_cases member : i ∈ ids failed
  · obtain ⟨item, member⟩ := mem_ids_iff.mp member
    rw [result.dependents _ member]
    exact prefix_append _ _
  · rw [result.others i own member]

theorem Settled.grown {event : SyncQueueEvent} (result : Settled id event s s') : Grown s s' := by
  intro i
  by_cases own : i = id
  · rw [own, result.own]
    exact prefix_append _ _
  · rw [result.others own]

variable {skips : QueueItem → Bool}

theorem Dequeued.grown (dequeued : Dequeued skips s s') : Grown s s' := by
  induction dequeued with
  | stays => exact .refl _
  | sent =>
    rw [awaitAll_eq]
    exact .refl _
  | dropped _ _ _ _ fails _ _ ih => exact fails.grown.trans ih
  | skipped _ _ _ _ _ _ ih =>
    rw [awaitAll_eq] at ih
    exact ih

theorem Dequeued.enqueued (dequeued : Dequeued skips s s') : s'.enqueued = s.enqueued := by
  induction dequeued with
  | stays => rfl
  | sent =>
    rw [awaitAll_eq]
    rfl
  | dropped _ _ _ _ fails _ _ ih =>
    rw [ih, fails.same]
    rfl
  | skipped _ _ _ _ _ _ ih =>
    rw [ih, awaitAll_eq]
    rfl

theorem Pushed.grown (pushed : Pushed item s s') : Grown s s' := by
  intro i
  by_cases own : i = s.nextId
  · rw [own, pushed.own]
    exact prefix_append _ _
  · rw [pushed.others own]

def Mapped (s : SyncQueue) : Prop :=
  ∀ clientId serverId, s.clientIdToServer clientId = some serverId → s.Created clientId serverId

theorem Mapped.tied (mapped : Mapped s) (syncId : SyncId) : s.Tied syncId (s.updatedSyncId syncId) := by
  cases syncId with
  | serverId serverId => exact .inl rfl
  | clientId clientId =>
    cases known : s.clientIdToServer clientId with
    | none => exact .inl (by simp [updatedSyncId, tryServerId, known])
    | some serverId =>
      exact .inr ⟨clientId, serverId, rfl, by simp [updatedSyncId, tryServerId, known], mapped clientId serverId known⟩

theorem Mapped.failures (mapped : Mapped s) (item : QueueItem) :
    List.Forall₂ s.Tied item.objects (((item.failures s).map Prod.snd).map SyncQueueEvent.uid) := by
  cases item with
  | createObject | createWorkflow | recordObjectAction => exact .cons (.inl rfl) .nil
  | update _ _ id => exact .cons (mapped.tied id) .nil
  | updateWorkflow _ id => exact .cons (mapped.tied id) .nil
  | bulkCreateGenericStringObjects owner objects =>
    have same : ((((QueueItem.bulkCreateGenericStringObjects owner objects).failures s).map Prod.snd).map
        SyncQueueEvent.uid) = (QueueItem.bulkCreateGenericStringObjects owner objects).objects := by
      simp [QueueItem.failures, QueueItem.objects, SyncQueueEvent.uid, Function.comp_def]
    rw [same]
    exact tied_refl _

theorem length_of_mapM {α β : Type} {f : α → Option β} {xs : List α} {ys : List β} (found : xs.mapM f = some ys) :
    ys.length = xs.length := by
  induction xs generalizing ys with
  | nil =>
    rw [mapM_nil] at found
    exact congrArg List.length (Option.some.inj found).symm
  | cons x xs ih =>
    rw [mapM_cons] at found
    obtain ⟨y, -, rest⟩ := Option.bind_eq_some_iff.mp found
    obtain ⟨ys', found', same⟩ := Option.bind_eq_some_iff.mp rest
    rw [← Option.some.inj same, length_cons, length_cons, ih found']

theorem Mapped.request (mapped : Mapped s) {request : Request} (known : item.request s = some request) :
    List.Forall₂ s.Tied item.objects request.uids := by
  cases item with
  | createObject info =>
    obtain ⟨folder, -, rfl⟩ := Option.map_eq_some_iff.mp known
    exact tied_refl _
  | createWorkflow info =>
    obtain ⟨folder, -, rfl⟩ := Option.map_eq_some_iff.mp known
    exact tied_refl _
  | bulkCreateGenericStringObjects owner objects =>
    obtain ⟨folders, found, rfl⟩ := Option.map_eq_some_iff.mp known
    have length := length_of_mapM found
    have same : (Request.bulkCreateGenericStringObjects owner (objects.zip folders)).uids =
        (QueueItem.bulkCreateGenericStringObjects owner objects).objects := by
      have : (objects.zip folders).map Prod.fst = objects := map_fst_zip (by omega)
      conv_rhs => rw [QueueItem.objects, ← this, List.map_map]
      rfl
    rw [same]
    exact tied_refl _
  | update kind model syncId revision =>
    obtain ⟨serverId, found, rfl⟩ := Option.map_eq_some_iff.mp known
    have tied := mapped.tied syncId
    rw [updatedSyncId, found] at tied
    exact .cons tied .nil
  | updateWorkflow model syncId revision =>
    obtain ⟨serverId, found, rfl⟩ := Option.map_eq_some_iff.mp known
    have tied := mapped.tied syncId
    rw [updatedSyncId, found] at tied
    exact .cons tied .nil
  | recordObjectAction syncId actionType timestamp data =>
    obtain ⟨serverId, found, rfl⟩ := Option.map_eq_some_iff.mp known
    have tied := mapped.tied syncId
    rw [updatedSyncId, found] at tied
    exact .cons tied .nil

structure Ledger (exempt : List QueueItemId) (s : SyncQueue) : Prop where
  shaped : Shaped s
  mapped : Mapped s
  queued : ∀ i ∈ ids s.queue, s.eventsOf i = []
  flying : ∀ i ∈ s.flights.map Flight.itemId, s.eventsOf i = []
  fresh : ∀ i, s.nextId ≤ i → s.eventsOf i = []
  below : ∀ i ∈ ids s.enqueued, i < s.nextId
  nodup : (ids s.enqueued).Nodup
  kept : ∀ entry ∈ s.enqueued, ∀ item, (entry.1, item) ∈ s.queue → item.shape = entry.2.shape
  sent : ∀ entry ∈ s.enqueued, ∀ flight ∈ s.flights, flight.itemId = entry.1 →
    List.Forall₂ s.Tied entry.2.objects flight.request.uids
  placed : ∀ entry ∈ s.enqueued, entry.1 ∉ exempt →
    entry.1 ∈ ids s.queue ∨ entry.1 ∈ s.flights.map Flight.itemId ∨ s.Reported entry.1 entry.2

namespace Ledger

variable {exempt : List QueueItemId} {reports : List (ObjectUid × SyncQueueEvent)}
  {failed : List (QueueItemId × QueueItem)} {event : SyncQueueEvent}

theorem reported_of_events (tied : List.Forall₂ s.Tied item.objects ((s.eventsOf id).map SyncQueueEvent.uid)) :
    s.Reported id item := ⟨_, .refl _, tied⟩

theorem close (ledger : Ledger (id :: exempt) s) (reported : ∀ item, (id, item) ∈ s.enqueued → s.Reported id item) :
    Ledger exempt s := by
  refine { ledger with placed := fun entry enqueued unexempted => ?_ }
  by_cases same : entry.1 = id
  · obtain ⟨i, item⟩ := entry
    exact .inr (.inr (same ▸ reported item (same ▸ enqueued)))
  · exact ledger.placed entry enqueued (not_mem_cons_of_ne_of_not_mem same unexempted)

theorem without (ledger : Ledger exempt s) (id : QueueItemId) : Ledger (id :: exempt) (s.without id) where
  shaped := ledger.shaped.without id
  mapped := ledger.mapped
  queued i member := ledger.queued i (mem_ids_without.mp member).1
  flying := ledger.flying
  fresh := ledger.fresh
  below := ledger.below
  nodup := ledger.nodup
  kept entry enqueued item member := ledger.kept entry enqueued item (mem_without.mp member).1
  sent := ledger.sent
  placed entry enqueued unexempted := by
    rw [mem_cons, not_or] at unexempted
    rcases ledger.placed entry enqueued unexempted.2 with queued | flying | reported
    · exact .inl (mem_ids_without.mpr ⟨queued, unexempted.1⟩)
    · exact .inr (.inl flying)
    · exact .inr (.inr reported)

theorem awaitAll (ledger : Ledger exempt s) (below : id < s.nextId) (uids : List ObjectUid) :
    Ledger exempt (s.awaitAll id uids) := by
  have shaped := ledger.shaped.awaitAll below uids
  rw [awaitAll_eq] at shaped ⊢
  exact ⟨shaped, ledger.mapped, ledger.queued, ledger.flying, ledger.fresh, ledger.below, ledger.nodup, ledger.kept,
    ledger.sent, ledger.placed⟩

theorem spawn (ledger : Ledger (id :: exempt) s) (gone : Gone id s) (silent : s.eventsOf id = []) {request : Request}
    (tied : ∀ item, (id, item) ∈ s.enqueued → List.Forall₂ s.Tied item.objects request.uids) :
    Ledger exempt (s.spawn id request) := by
  have flights : (s.spawn id request).flights.map Flight.itemId = s.flights.map Flight.itemId ++ [id] := by
    simp [SyncQueue.spawn]
  constructor
  case shaped => exact ledger.shaped.spawn gone request
  case mapped => exact ledger.mapped
  case queued => exact ledger.queued
  case flying =>
    intro i member
    rw [flights] at member
    rcases List.mem_append.mp member with member | member
    · exact ledger.flying i member
    · exact List.mem_singleton.mp member ▸ silent
  case fresh => exact ledger.fresh
  case below => exact ledger.below
  case nodup => exact ledger.nodup
  case kept => exact ledger.kept
  case sent =>
    intro entry enqueued flight flies same
    rcases List.mem_append.mp flies with flies | flies
    · exact ledger.sent entry enqueued flight flies same
    · obtain rfl := List.mem_singleton.mp flies
      have same : entry.1 = id := same.symm
      exact tied entry.2 (same ▸ enqueued)
  case placed =>
    intro entry enqueued unexempted
    rw [flights]
    by_cases same : entry.1 = id
    · exact .inr (.inl (mem_append_right _ (List.mem_singleton.mpr same)))
    rcases ledger.placed entry enqueued (not_mem_cons_of_ne_of_not_mem same unexempted) with queued | flying | reported
    · exact .inl queued
    · exact .inr (.inl (mem_append_left _ flying))
    · exact .inr (.inr reported)

section

variable (ledger : Ledger exempt s)
include ledger

theorem fail (gone : Gone id s) (result : Failed id reports failed s s') (exempted : id ∈ exempt) :
    Ledger exempt s' := by
  have nextId : s'.nextId = s.nextId := by rw [result.same]
  have flights : s'.flights = s.flights := by rw [result.same]
  have enqueued : s'.enqueued = s.enqueued := by rw [result.same]
  have silent : ∀ i, i ≠ id → i ∉ ids failed → s'.eventsOf i = s.eventsOf i := result.others
  have queuedBefore : ∀ i ∈ ids failed, i ∈ ids s.queue := by
    intro i member
    obtain ⟨item, member⟩ := mem_ids_iff.mp member
    exact mem_ids (result.mem _ member)
  constructor
  case shaped => exact ledger.shaped.fail result
  case mapped =>
    intro clientId serverId known
    rw [result.clientIdToServer] at known
    exact result.grown.created (ledger.mapped clientId serverId known)
  case queued =>
    intro i member
    obtain ⟨queued, survived⟩ := result.mem_ids.mp member
    rw [silent i (fun same => gone.2.1 (same ▸ queued)) survived]
    exact ledger.queued i queued
  case flying =>
    intro i member
    rw [flights] at member
    rw [silent i (fun same => gone.2.2 (same ▸ member)) fun failed => ledger.shaped.apart i member (queuedBefore i failed)]
    exact ledger.flying i member
  case fresh =>
    intro i le
    rw [nextId] at le
    rw [silent i (fun same => absurd gone.1 (same ▸ not_lt.mpr le))
      fun failed => absurd (ledger.shaped.below i (queuedBefore i failed)) (not_lt.mpr le)]
    exact ledger.fresh i le
  case below => exact enqueued ▸ nextId ▸ ledger.below
  case nodup => exact enqueued ▸ ledger.nodup
  case kept =>
    intro entry member item queued
    exact ledger.kept entry (enqueued ▸ member) item (result.mem_queue.mp queued).1
  case sent =>
    intro entry member flight flies same
    exact (ledger.sent entry (enqueued ▸ member) flight (flights ▸ flies) same).imp fun _ _ => result.grown.tied
  case placed =>
    intro entry member unexempted
    rw [enqueued] at member
    rw [flights]
    have ne : entry.1 ≠ id := fun same => unexempted (same ▸ exempted)
    by_cases fallen : entry.1 ∈ ids failed
    · obtain ⟨item, fallen⟩ := mem_ids_iff.mp fallen
      right; right
      apply reported_of_events
      have shape := ledger.kept entry member item (result.mem _ fallen)
      rw [result.dependents _ fallen, ledger.queued _ (queuedBefore _ (mem_ids fallen)), nil_append,
        ← QueueItem.objects_shape, ← shape, QueueItem.objects_shape]
      exact (ledger.mapped.failures item).imp fun _ _ => result.grown.tied
    rcases ledger.placed entry member unexempted with queued | flying | reported
    · exact .inl (result.mem_ids.mpr ⟨queued, fallen⟩)
    · exact .inr (.inl flying)
    · exact .inr (.inr (result.grown.reported (silent _ ne fallen) reported))

theorem settle (gone : Gone id s) (result : Settled id event s s') (exempted : id ∈ exempt) :
    Ledger exempt s' := by
  have nextId : s'.nextId = s.nextId := by rw [result.same]
  have flights : s'.flights = s.flights := by rw [result.same]
  have enqueued : s'.enqueued = s.enqueued := by rw [result.same]
  constructor
  case shaped => exact ledger.shaped.settle result
  case mapped =>
    intro clientId serverId known
    rw [result.clientIdToServer] at known
    cases isCreated : event.created with
    | none =>
      rw [isCreated] at known
      exact result.grown.created (ledger.mapped clientId serverId known)
    | some created =>
      rw [isCreated, Option.bind_some] at known
      by_cases same : clientId = created.1
      · rw [if_pos same] at known
        have known : some created.2 = some serverId := known
        refine ⟨id, event, ?_, isCreated.trans ?_⟩
        · rw [result.own]
          exact mem_append_right _ mem_cons_self
        · rw [same, ← Option.some.inj known]
      · rw [if_neg same, Option.none_or] at known
        exact result.grown.created (ledger.mapped clientId serverId known)
  case queued =>
    intro i member
    rw [result.ids] at member
    rw [result.others fun same => gone.2.1 (same ▸ member)]
    exact ledger.queued i member
  case flying =>
    intro i member
    rw [flights] at member
    rw [result.others fun same => gone.2.2 (same ▸ member)]
    exact ledger.flying i member
  case fresh =>
    intro i le
    rw [nextId] at le
    rw [result.others fun same => absurd gone.1 (same ▸ not_lt.mpr le)]
    exact ledger.fresh i le
  case below => exact enqueued ▸ nextId ▸ ledger.below
  case nodup => exact enqueued ▸ ledger.nodup
  case kept =>
    intro entry member item queued
    obtain ⟨before, queued, shape⟩ := mem_of_shapes result.shapes queued
    exact shape.symm.trans (ledger.kept entry (enqueued ▸ member) before queued)
  case sent =>
    intro entry member flight flies same
    exact (ledger.sent entry (enqueued ▸ member) flight (flights ▸ flies) same).imp fun _ _ => result.grown.tied
  case placed =>
    intro entry member unexempted
    rw [enqueued] at member
    rw [flights, result.ids]
    have ne : entry.1 ≠ id := fun same => unexempted (same ▸ exempted)
    rcases ledger.placed entry member unexempted with queued | flying | reported
    · exact .inl queued
    · exact .inr (.inl flying)
    · exact .inr (.inr (result.grown.reported (result.others ne) reported))

theorem reshape {queue : List (QueueItemId × QueueItem)} (same : shapes queue = shapes s.queue) :
    Ledger exempt { s with queue := queue } where
  shaped := ledger.shaped.reshape same
  mapped := ledger.mapped
  queued i member := ledger.queued i (ids_of_shapes same ▸ member)
  flying := ledger.flying
  fresh := ledger.fresh
  below := ledger.below
  nodup := ledger.nodup
  kept entry enqueued item queued := by
    obtain ⟨before, queued, shape⟩ := mem_of_shapes same queued
    exact shape.symm.trans (ledger.kept entry enqueued before queued)
  sent := ledger.sent
  placed entry enqueued unexempted := by
    have sameIds : ids queue = ids s.queue := ids_of_shapes same
    exact (ledger.placed entry enqueued unexempted).imp_left fun member => sameIds ▸ member

theorem land {flight : Flight} (flies : flight ∈ s.flights) :
    Ledger (flight.itemId :: exempt) (s.land flight) where
  shaped := ledger.shaped.land flight
  mapped := ledger.mapped
  queued := ledger.queued
  flying i member := ledger.flying i (((erase_sublist (l := s.flights)).map _).subset member)
  fresh := ledger.fresh
  below := ledger.below
  nodup := ledger.nodup
  kept := ledger.kept
  sent entry enqueued other flies := ledger.sent entry enqueued other ((erase_sublist (l := s.flights)).subset flies)
  placed entry enqueued unexempted := by
    rw [mem_cons, not_or] at unexempted
    rcases ledger.placed entry enqueued unexempted.2 with queued | flying | reported
    · exact .inl queued
    · right; left
      obtain ⟨other, flies', same⟩ := List.mem_map.mp flying
      have ne : other ≠ flight := fun equal => unexempted.1 (equal ▸ same.symm)
      exact List.mem_map.mpr ⟨other, (mem_erase_of_ne ne).mpr flies', same⟩
    · exact .inr (.inr reported)

end

theorem push (ledger : Ledger exempt s) (inferable : s.inferable item) : Ledger exempt (s.push item) := by
  have pushed := ledger.shaped.pushed item
  have flights : (s.push item).flights = s.flights := by rw [pushed.same]
  have nextId : (s.push item).nextId = s.nextId + 1 := by rw [pushed.same]
  have enqueued : (s.push item).enqueued = s.enqueued ++ [(s.nextId, item)] := by rw [pushed.same]
  have client : (s.push item).clientIdToServer = s.clientIdToServer := by rw [pushed.same]
  have silent : ∀ i, (s.push item).eventsOf i = s.eventsOf i := by
    intro i
    by_cases own : i = s.nextId
    · rw [own, pushed.own, if_pos inferable, append_nil]
    · exact pushed.others own
  constructor
  case shaped => exact ledger.shaped.push item
  case mapped =>
    intro clientId serverId known
    rw [client] at known
    exact pushed.grown.created (ledger.mapped clientId serverId known)
  case queued =>
    intro i member
    rw [silent]
    rcases pushed.mem_ids.mp member with queued | rfl
    · exact ledger.queued i queued
    · exact ledger.fresh _ le_rfl
  case flying =>
    intro i member
    rw [silent]
    exact ledger.flying i (flights ▸ member)
  case fresh =>
    intro i le
    rw [silent]
    rw [nextId] at le
    exact ledger.fresh i (Nat.le_of_succ_le le)
  case below =>
    intro i member
    rw [enqueued, ids_append, mem_append] at member
    rw [nextId]
    rcases member with member | member
    · exact Nat.lt_succ_of_lt (ledger.below i member)
    · exact List.mem_singleton.mp member ▸ Nat.lt_succ_self _
  case nodup =>
    rw [enqueued, ids_append]
    apply List.Nodup.append ledger.nodup (nodup_singleton _)
    intro i member same
    rw [List.mem_singleton.mp same] at member
    exact lt_irrefl _ (ledger.below _ member)
  case kept =>
    intro entry member other queued
    rw [enqueued] at member
    rw [pushed.queue] at queued
    rcases List.mem_append.mp member with member | member
    · rcases List.mem_append.mp queued with queued | queued
      · exact ledger.kept entry member other queued
      · have here : entry.1 = s.nextId := congrArg Prod.fst (List.mem_singleton.mp queued)
        exact absurd (ledger.below _ (mem_ids member)) (here ▸ lt_irrefl _)
    · obtain rfl := List.mem_singleton.mp member
      rcases List.mem_append.mp queued with queued | queued
      · exact absurd (ledger.shaped.below _ (mem_ids queued)) (lt_irrefl _)
      · have same : other = (s.inferred item).1 := congrArg Prod.snd (List.mem_singleton.mp queued)
        rw [same]
        exact inferred_shape item
  case sent =>
    intro entry member flight flies same
    rw [enqueued] at member
    rw [flights] at flies
    rcases List.mem_append.mp member with member | member
    · exact (ledger.sent entry member flight flies same).imp fun _ _ => pushed.grown.tied
    · obtain rfl := List.mem_singleton.mp member
      have := ledger.shaped.flightsBelow _ (List.mem_map_of_mem flies)
      exact absurd this (same ▸ lt_irrefl _)
  case placed =>
    intro entry member unexempted
    rw [enqueued] at member
    rw [flights]
    rcases List.mem_append.mp member with member | member
    · rcases ledger.placed entry member unexempted with queued | flying | reported
      · exact .inl (pushed.mem_ids.mpr (.inl queued))
      · exact .inr (.inl flying)
      · exact .inr (.inr (pushed.grown.reported (silent _) reported))
    · obtain rfl := List.mem_singleton.mp member
      exact .inl (pushed.mem_ids.mpr (.inr rfl))

theorem dequeued (dequeued : Dequeued (fun _ => false) s s') (ledger : Ledger exempt s) :
    Ledger exempt s' ∧ ∀ i, Gone i s → s'.eventsOf i = s.eventsOf i := by
  induction dequeued generalizing exempt with
  | stays => exact ⟨ledger, fun _ _ => rfl⟩
  | @sent s entry request queued ready known =>
    have gone := ledger.shaped.gone_without (mem_ids queued)
    have ledger' := (ledger.without entry.1).awaitAll gone.1 (entry.2.awaits s)
    have same : ∀ i, ((s.without entry.1).awaitAll entry.1 (entry.2.awaits s)).eventsOf i = s.eventsOf i := by
      rw [awaitAll_eq]
      exact fun _ => rfl
    refine ⟨ledger'.spawn (gone.awaitAll ..) ((same _).trans (ledger.queued _ (mem_ids queued))) ?_, fun i _ => same i⟩
    intro item enqueued
    rw [awaitAll_eq] at enqueued ⊢
    have shape : entry.2.shape = item.shape := ledger.kept (entry.1, item) enqueued entry.2 queued
    rw [← QueueItem.objects_shape, ← shape, QueueItem.objects_shape]
    exact ledger.mapped.request known
  | @dropped s t s' entry failed queued ready unknown update fails closed rest ih =>
    have gone := ledger.shaped.gone_without (mem_ids queued)
    have ledger' := (ledger.without entry.1).fail gone fails mem_cons_self
    have enqueued : t.enqueued = s.enqueued := by rw [fails.same]; rfl
    have ledger'' : Ledger exempt t := by
      apply ledger'.close
      intro item member
      apply reported_of_events
      rw [enqueued] at member
      have shape : entry.2.shape = item.shape := ledger.kept (entry.1, item) member entry.2 queued
      have silent : (s.without entry.1).eventsOf entry.1 = [] := ledger.queued _ (mem_ids queued)
      rw [fails.own, silent, nil_append, ← QueueItem.objects_shape, ← shape, QueueItem.objects_shape]
      exact (ledger.mapped.failures entry.2).imp fun _ _ => fails.grown.tied
    obtain ⟨result, silent⟩ := ih ledger''
    refine ⟨result, fun i goneBefore => ?_⟩
    have goneWithout : Gone i (s.without entry.1) :=
      ⟨goneBefore.1, fun member => goneBefore.2.1 (mem_ids_without.mp member).1, goneBefore.2.2⟩
    rw [silent i (goneWithout.fail fails), fails.others]
    · rfl
    · rintro rfl
      exact goneBefore.2.1 (mem_ids queued)
    · intro fallen
      obtain ⟨item, fallen⟩ := mem_ids_iff.mp fallen
      exact goneWithout.2.1 (mem_ids (fails.mem _ fallen))
  | skipped _ _ _ _ skip => cases skip

theorem dequeue (ledger : Ledger exempt s) (known : s.takesKnown fun _ => false) :
    Ledger exempt s.dequeue ∧ ∀ i, Gone i s → s.dequeue.eventsOf i = s.eventsOf i :=
  dequeued (ledger.shaped.dequeued known) ledger

theorem answered {flight : Flight} {response : Response} (answered : Answered s flight response s')
    (ledger : Ledger (flight.itemId :: exempt) s) (gone : Gone flight.itemId s) (silent : s.eventsOf flight.itemId = [])
    (tied : ∀ item, (flight.itemId, item) ∈ s.enqueued → List.Forall₂ s.Tied item.objects flight.request.uids)
    (named : flight.request.Named response) : Ledger exempt s' := by
  -- Each case settles the item or fails it, with events about the objects of the request.
  have settles : ∀ {event : SyncQueueEvent} {t : SyncQueue}, Ledger (flight.itemId :: exempt) t → Gone flight.itemId t →
      t.eventsOf = s.eventsOf → t.enqueued = s.enqueued → flight.request.uids = [event.uid] →
      Settled flight.itemId event t s' → Ledger exempt s' := by
    intro event t ledger gone events enqueued uids settled
    apply (ledger.settle gone settled mem_cons_self).close
    intro item member
    have same : s'.enqueued = s.enqueued := by rw [settled.same, enqueued]
    have grown : Grown s s' := fun i => events ▸ settled.grown i
    apply reported_of_events
    rw [settled.own, events, silent, nil_append, map_singleton, ← uids]
    exact (tied item (same ▸ member)).imp fun _ _ => grown.tied
  cases answered with
  | @created info title model folder createdObject request =>
    obtain ⟨queue, same, rewritten⟩ := @updateDependenciesOnCreation_eq s flight.itemId info.id createdObject.serverId
      info.objectType
    rw [rewritten] at settles ⊢
    refine settles (ledger.reshape same) ?_ rfl rfl ?_ (settle_settled ..)
    · exact ⟨gone.1, fun member => gone.2.1 (ids_of_shapes same ▸ member), gone.2.2⟩
    · rw [request]
      rfl
  | denied request =>
    refine settles ledger gone rfl rfl ?_ (settle_settled ..)
    rw [request]
    rfl
  | settled responseType other nothing succeeds uids => exact settles ledger gone rfl rfl (uids named) (settle_settled ..)
  | reported reports uids about =>
    by_cases none : reports = []
    · rw [none]
      apply ledger.close
      intro item member
      apply reported_of_events
      rw [silent]
      have all := tied item member
      rw [← uids, none] at all
      exact all
    · obtain ⟨failed, fails, -⟩ := reportFailures_spec gone.2.1 ledger.shaped.reporting none
      apply (ledger.fail gone fails mem_cons_self).close
      intro item member
      have same : (s.reportFailures handleDependencyFailure flight.itemId reports).enqueued = s.enqueued := by
        rw [fails.same]
      rw [same] at member
      apply reported_of_events
      have events : (reports.map Prod.snd).map SyncQueueEvent.uid = flight.request.uids := by
        rw [← uids, List.map_map]
        exact map_congr_left fun report member => (about report member).1
      rw [fails.own, silent, nil_append, events]
      exact (tied item member).imp fun _ _ => fails.grown.tied

end Ledger

/-- The calls of `dequeue` of a bulk creation pass over no item that is not among the skips. -/
def createdKnown (skips : QueueItem → Bool) (id : QueueItemId) : List CreatedCloudObject → SyncQueue → Bool
  | [], _ => true
  | object :: objects, s =>
    let settled := s.settle (creationSuccess object.clientId object) id .user
    settled.takesKnown skips && createdKnown skips id objects settled.dequeue

def callbackKnown (skips : QueueItem → Bool) (s : SyncQueue) (flight : Flight) : Response → Bool
  | .bulkCreated (.success createdObjects) => createdKnown skips flight.itemId createdObjects s
  | response => response.isPersistent || (s.answer flight response).takesKnown skips

def flightOf (s : SyncQueue) (id : QueueItemId) (response : Response) : Option Flight :=
  s.flights.find? fun flight => flight.itemId = id ∧ flight.request.takes response

/-- Whether the step passes over none but the skips. -/
def stepKnown (skips : QueueItem → Bool) (s : SyncQueue) : Step → Bool
  | .enqueue item => (s.push item).takesKnown skips
  | .respond id response => (s.flightOf id response).all fun flight => (s.land flight).callbackKnown skips flight response
  | .startDequeueing => { s with shouldDequeue := true }.takesKnown skips
  | .stopDequeueing | .clear => true

/-- A workflow refers to objects that exist or are worked on only, and a response names the objects of its request. -/
def StepNamed (s : SyncQueue) : Step → Prop
  | .enqueue item => s.inferable item
  | .respond id response => ∀ flight ∈ s.flightOf id response, flight.request.Named response
  | _ => True

instance (s : SyncQueue) (step : Step) : Decidable (s.StepNamed step) := by
  unfold StepNamed
  split <;> infer_instance

namespace Ledger

variable {exempt : List QueueItemId}

theorem createdObjects (objects : List CreatedCloudObject) (ledger : Ledger (id :: exempt) s) (gone : Gone id s)
    (known : createdKnown (fun _ => false) id objects s) :
    Ledger (id :: exempt) (s.createdObjects id objects) ∧ (s.createdObjects id objects).enqueued = s.enqueued ∧
      Grown s (s.createdObjects id objects) ∧
      ((s.createdObjects id objects).eventsOf id).map SyncQueueEvent.uid =
        (s.eventsOf id).map SyncQueueEvent.uid ++ objects.map fun object => .clientId object.clientId := by
  induction objects generalizing s with
  | nil => exact ⟨ledger, rfl, .refl _, by simp [SyncQueue.createdObjects]⟩
  | cons object objects ih =>
    obtain ⟨first, rest⟩ := Bool.and_eq_true_iff.mp known
    have settled := @settle_settled s (creationSuccess object.clientId object) id .user
    have ledger' := ledger.settle gone settled mem_cons_self
    have gone' := gone.settle settled
    have dequeued := ledger'.shaped.dequeued first
    obtain ⟨ledger'', silent⟩ := ledger'.dequeue first
    obtain ⟨result, enqueued, grown, events⟩ := ih ledger'' (gone'.dequeue ledger'.shaped) rest
    refine ⟨result, ?_, (settled.grown.trans dequeued.grown).trans grown, ?_⟩
    · exact enqueued.trans (dequeued.enqueued.trans (by rw [settled.same]))
    · refine events.trans ?_
      rw [silent id gone', settled.own, map_append, append_assoc]
      rfl

section

variable (ledger : Ledger exempt s)
include ledger

theorem respond {response : Response} (named : s.StepNamed (.respond id response))
    (known : s.stepKnown (fun _ => false) (.respond id response)) : Ledger exempt (s.respond id response) := by
  rcases respond_cases s id response with same | ⟨flight, found, flies, rfl, cases⟩
  · rw [same]
    exact ledger
  have named : flight.request.Named response := named flight found
  have known : (s.land flight).callbackKnown (fun _ => false) flight response := by
    have all : (s.flightOf flight.itemId response).all _ = true := known
    rwa [show s.flightOf flight.itemId response = some flight from found] at all
  have landed := ledger.land flies
  have gone := ledger.shaped.gone_land flies
  have silent : (s.land flight).eventsOf flight.itemId = [] := ledger.flying _ (List.mem_map_of_mem flies)
  have tied : ∀ item, (flight.itemId, item) ∈ (s.land flight).enqueued →
      List.Forall₂ (s.land flight).Tied item.objects flight.request.uids :=
    fun item member => ledger.sent (flight.itemId, item) member flight flies rfl
  rcases cases with ⟨owner, objects, createdObjects, request, rfl, responds⟩ | ⟨answered, several, responds⟩
  · rw [responds]
    obtain ⟨result, enqueued, grown, events⟩ := landed.createdObjects createdObjects gone known
    apply result.close
    intro item member
    rw [enqueued] at member
    rw [request] at named
    refine ⟨flight.request.uids, ?_, (tied item member).imp fun _ _ => grown.tied⟩
    rw [events, silent, request]
    have := (named.map SyncId.clientId).symm
    rwa [List.map_map, List.map_map] at this
  · have ledger' := Ledger.answered answered landed gone silent tied named
    rw [responds]
    by_cases persistent : response.isPersistent
    · rw [if_pos persistent]
      exact ledger'
    · rw [if_neg persistent]
      apply (ledger'.dequeue _).1
      cases response with
      | bulkCreated result =>
        cases result with
        | success createdObjects => exact absurd rfl (several createdObjects)
        | genericStringObjectUniqueKeyConflict => exact known
      | created | updated | recorded => exact known
      | failed error => exact (Bool.or_eq_true_iff.mp known).resolve_left persistent

theorem setShouldDequeue (enabled : Bool) : Ledger exempt { s with shouldDequeue := enabled } :=
  ⟨ledger.shaped.setShouldDequeue enabled, ledger.mapped, ledger.queued, ledger.flying, ledger.fresh, ledger.below,
    ledger.nodup, ledger.kept, ledger.sent, ledger.placed⟩

theorem clear : Ledger exempt s.clear where
  shaped := ledger.shaped.clear
  mapped _ _ known := by cases known
  queued _ member := absurd member not_mem_nil
  flying := ledger.flying
  fresh := ledger.fresh
  below _ member := absurd member not_mem_nil
  nodup := nodup_nil
  kept _ member := absurd member not_mem_nil
  sent _ member := absurd member not_mem_nil
  placed _ member := absurd member not_mem_nil

theorem step {step : Step} (named : s.StepNamed step) (known : s.stepKnown (fun _ => false) step) :
    Ledger exempt (s.step step) := by
  cases step with
  | enqueue item => exact ((ledger.push named).dequeue known).1
  | respond id response => exact ledger.respond named known
  | startDequeueing => exact ((ledger.setShouldDequeue true).dequeue known).1
  | stopDequeueing => exact ledger.setShouldDequeue false
  | clear => exact ledger.clear

end

theorem new {items : List QueueItem} (inferable : ∀ item ∈ items, (loaded items).inferable item) :
    Ledger [] (new items) := by
  have ofQueue : ∀ {entry : QueueItemId × QueueItem}, entry ∈ (loaded items).queue → entry.2 ∈ items := by
    intro entry member
    obtain ⟨⟨item, i⟩, found, rfl⟩ := List.mem_map.mp member
    exact fst_mem_of_mem_zipIdx found
  have quiet : Quiet (loaded items) := fun entry member fails =>
    absurd (inferable entry.2 (ofQueue member)) (Bool.eq_false_iff.mp fails)
  have isNew := new_spec quiet
  have enqueued : (SyncQueue.new items).enqueued = (loaded items).queue := by rw [isNew.same]; rfl
  have nextId : (SyncQueue.new items).nextId = items.length := by rw [isNew.same]; rfl
  have flights : (SyncQueue.new items).flights = [] := by rw [isNew.same]; rfl
  have nodup : (ids (loaded items).queue).Nodup := ids_loaded items ▸ nodup_range
  have silent : ∀ i, (SyncQueue.new items).eventsOf i = [] := by
    intro i
    by_cases member : i ∈ ids (loaded items).queue
    · obtain ⟨item, member⟩ := mem_ids_iff.mp member
      exact (isNew.events (i, item) member).trans (if_pos (inferable item (ofQueue member)))
    · exact isNew.others i member
  constructor
  case shaped => exact isNew.shaped
  case mapped =>
    intro clientId serverId known
    rw [isNew.same] at known
    cases known
  case queued => exact fun i _ => silent i
  case flying => exact fun i _ => silent i
  case fresh => exact fun i _ => silent i
  case below =>
    intro i member
    rw [enqueued, ids_loaded] at member
    exact nextId ▸ List.mem_range.mp member
  case nodup => exact enqueued ▸ nodup
  case kept =>
    intro entry member item queued
    rw [enqueued] at member
    obtain ⟨other, member', rfl⟩ := isNew.mem_queue.mp queued
    have same := inj_on_of_nodup_map nodup member' member rfl
    rw [inferred_shape, ← same]
  case sent =>
    intro entry _ flight flies
    rw [flights] at flies
    exact absurd flies not_mem_nil
  case placed =>
    intro entry member _
    rw [enqueued] at member
    rw [isNew.ids, ← ids_loaded]
    exact .inl (mem_ids member)

theorem accounted (ledger : Ledger [] s) {entry : QueueItemId × QueueItem} (enqueued : entry ∈ s.enqueued) :
    s.Accounted entry.1 entry.2 := by
  by_cases queued : entry.1 ∈ ids s.queue
  · have absent : entry.1 ∉ s.flights.map Flight.itemId := fun flies => ledger.shaped.apart _ flies queued
    exact .inl ⟨count_eq_one_of_mem ledger.shaped.nodup queued, count_eq_zero_of_not_mem absent,
      ledger.queued _ queued⟩
  by_cases flies : entry.1 ∈ s.flights.map Flight.itemId
  · exact .inr (.inl ⟨count_eq_zero_of_not_mem queued, count_eq_one_of_mem ledger.shaped.flightsNodup flies,
      ledger.flying _ flies⟩)
  · rcases ledger.placed entry enqueued not_mem_nil with queued' | flies' | reported
    · exact absurd queued' queued
    · exact absurd flies' flies
    · exact .inr (.inr ⟨count_eq_zero_of_not_mem queued, count_eq_zero_of_not_mem flies, reported⟩)

end Ledger

/-- No item enqueued is lost or duplicated while every object that an item needs is known. -/
theorem run_accounted {items : List QueueItem} {steps : List Step}
    (inferable : ∀ item ∈ items, (loaded items).inferable item)
    (sound : Trace.Every step (fun s step => s.StepNamed step ∧ s.stepKnown (fun _ => false) step) (new items) steps) :
    ∀ entry ∈ ((new items).run steps).enqueued, ((new items).run steps).Accounted entry.1 entry.2 := by
  intro entry enqueued
  have ledger : Ledger [] ((new items).run steps) :=
    sound.invariant (fun s step ledger allowed => ledger.step allowed.1 allowed.2) (Ledger.new inferable)
  exact ledger.accounted enqueued

def creationIn (objectType : ObjectType) (id : ClientId) (folder : Option SyncId) : QueueItem :=
  .createObject ⟨objectType, .user "user", id, folder, .unknown, .user⟩ none none

def createdAs (id : ClientId) (serverId : ServerId) : Response :=
  .created (.success ⟨id, ⟨0, none⟩, serverId, none⟩)

theorem folder_then_notebook_accounted :
    let folder : ClientId := ⟨1⟩
    let items := [creationIn .folder folder none]
    let steps : List Step := [.startDequeueing, .respond 0 (createdAs folder ⟨.replicate 22 'a'⟩),
      .enqueue (creationIn .notebook ⟨2⟩ (some (.clientId folder))),
      .enqueue (.update .updateNotebook ⟨"text"⟩ (.clientId ⟨2⟩) none), .respond 1 (createdAs ⟨2⟩ ⟨.replicate 22 'b'⟩),
      .respond 2 (.failed [.other])]
    ∀ entry ∈ ((new items).run steps).enqueued, ((new items).run steps).Accounted entry.1 entry.2 := by
  intro folder items steps
  exact run_accounted (by decide +kernel) (by decide +kernel)

/-- The notebook is dequeued while its folder is in flight: it is dropped, and nothing is emitted. -/
theorem notebook_in_folder_in_flight_lost :
    let folder : ClientId := ⟨1⟩
    let steps : List Step := [.startDequeueing, .enqueue (creationIn .folder folder none),
      .enqueue (creationIn .notebook ⟨2⟩ (some (.clientId folder)))]
    ¬ ∀ entry ∈ ((new []).run steps).enqueued, ((new []).run steps).Accounted entry.1 entry.2 := by
  intro folder steps all
  have enqueued : (1, creationIn .notebook ⟨2⟩ (some (.clientId folder))) ∈ ((new []).run steps).enqueued := by
    decide +kernel
  have silent : ((new []).run steps).eventsOf 1 = [] := by decide +kernel
  rcases all _ enqueued with ⟨queued, -⟩ | ⟨-, flies, -⟩ | ⟨-, -, order, perm, tied⟩
  · exact absurd queued (by decide +kernel)
  · exact absurd flies (by decide +kernel)
  · rw [silent] at perm
    rw [List.perm_nil.mp perm] at tied
    cases tied

/-- No item is queued twice, in flight twice or both, none is sent twice, and none is queued after it was sent. -/
structure Safe (s : SyncQueue) : Prop extends Shaped s where
  once : (s.requests.map Flight.itemId).Nodup
  sent : ∀ i ∈ s.requests.map Flight.itemId, i < s.nextId ∧ i ∉ ids s.queue

namespace Safe

theorem still (safe : Safe s) (shaped : Shaped s') (requests : s'.requests = s.requests) (next : s.nextId ≤ s'.nextId)
    (queued : ∀ i ∈ ids s'.queue, i ∈ ids s.queue ∨ s.nextId ≤ i) : Safe s' where
  toShaped := shaped
  once := requests ▸ safe.once
  sent i member := by
    obtain ⟨below, absent⟩ := safe.sent i (requests ▸ member)
    exact ⟨below.trans_le next, fun again => (queued i again).elim absent (not_le_of_gt below)⟩

theorem fail {reports : List (ObjectUid × SyncQueueEvent)} {failed : List (QueueItemId × QueueItem)} (safe : Safe s)
    (result : Failed id reports failed s s') : Safe s' :=
  safe.still (safe.toShaped.fail result) (by rw [result.same]) (by rw [result.same])
    fun i member => .inl (result.mem_ids.mp member).1

theorem settle {event : SyncQueueEvent} (safe : Safe s) (result : Settled id event s s') : Safe s' :=
  safe.still (safe.toShaped.settle result) (by rw [result.same]) (by rw [result.same])
    fun i member => .inl (result.ids ▸ member)

theorem without (safe : Safe s) (id : QueueItemId) : Safe (s.without id) :=
  safe.still (safe.toShaped.without id) rfl le_rfl fun i member => .inl (mem_ids_without.mp member).1

theorem awaitAll (safe : Safe s) (below : id < s.nextId) (uids : List ObjectUid) : Safe (s.awaitAll id uids) := by
  have shaped := safe.toShaped.awaitAll below uids
  rw [awaitAll_eq] at shaped ⊢
  exact safe.still shaped rfl le_rfl fun _ => .inl

theorem spawn (safe : Safe s) (gone : Gone id s) (fresh : id ∉ s.requests.map Flight.itemId) (request : Request) :
    Safe (s.spawn id request) where
  toShaped := safe.toShaped.spawn gone request
  once := by
    rw [SyncQueue.spawn, map_append]
    exact safe.once.append (nodup_singleton _) (disjoint_singleton.mpr fresh)
  sent i member := by
    rw [SyncQueue.spawn, map_append] at member
    rcases List.mem_append.mp member with member | member
    · exact safe.sent i member
    · obtain rfl := List.mem_singleton.mp member
      exact ⟨gone.1, gone.2.1⟩

theorem dequeue (safe : Safe s) : Safe s.dequeue := by
  have dequeued := safe.toShaped.dequeued (takesKnown_all s)
  generalize s.dequeue = s' at dequeued
  induction dequeued with
  | stays => exact safe
  | @sent s entry request queued =>
    have gone := safe.toShaped.gone_without (mem_ids queued)
    apply ((safe.without entry.1).awaitAll gone.1 (entry.2.awaits s)).spawn (gone.awaitAll ..)
    rw [awaitAll_eq]
    exact fun sent => (safe.sent _ sent).2 (mem_ids queued)
  | dropped queued ready unknown update fails closed rest ih => exact ih ((safe.without _).fail fails)
  | skipped queued ready unknown other skip rest ih =>
    exact ih ((safe.without _).awaitAll (safe.toShaped.gone_without (mem_ids queued)).1 _)

theorem answered {flight : Flight} {response : Response} (safe : Safe s) (gone : Gone flight.itemId s)
    (answered : Answered s flight response s') : Safe s' := by
  cases answered with
  | @created info _ _ _ object =>
    obtain ⟨queue, same, rewritten⟩ :=
      @updateDependenciesOnCreation_eq s flight.itemId info.id object.serverId info.objectType
    have reshaped : Safe { s with queue := queue } :=
      safe.still (safe.toShaped.reshape same) rfl le_rfl fun i member => .inl (ids_of_shapes same ▸ member)
    rw [rewritten]
    exact reshaped.settle (settle_settled ..)
  | denied | settled => exact safe.settle (settle_settled ..)
  | reported reports =>
    by_cases none : reports = []
    · exact none ▸ safe
    · obtain ⟨failed, fails, -⟩ := reportFailures_spec gone.2.1 safe.reporting none
      exact safe.fail fails

theorem setShouldDequeue (safe : Safe s) (enabled : Bool) : Safe { s with shouldDequeue := enabled } :=
  safe.still (safe.toShaped.setShouldDequeue enabled) rfl le_rfl fun _ => .inl

theorem step (safe : Safe s) (step : Step) : Safe (s.step step) := by
  cases step with
  | enqueue item =>
    have pushed := safe.toShaped.pushed item
    apply dequeue
    apply safe.still (safe.toShaped.push item) (by rw [pushed.same])
    · rw [pushed.same]
      exact Nat.le_succ _
    · exact fun i member => (pushed.mem_ids.mp member).imp_right Eq.ge
  | respond id response =>
    show Safe (s.respond id response)
    rcases respond_cases s id response with same | ⟨flight, -, flies, rfl, cases⟩
    · rw [same]
      exact safe
    have landed : Safe (s.land flight) := safe.still (safe.toShaped.land flight) rfl le_rfl fun _ => .inl
    rcases cases with ⟨-, -, objects, -, -, responds⟩ | ⟨answered, -, responds⟩
    · rw [responds]
      exact List.foldlRecOn objects _ landed fun _ safe _ _ => (safe.settle (settle_settled ..)).dequeue
    · have after := landed.answered (safe.toShaped.gone_land flies) answered
      rw [responds]
      split_ifs
      · exact after
      · exact after.dequeue
  | startDequeueing => exact (safe.setShouldDequeue true).dequeue
  | stopDequeueing => exact safe.setShouldDequeue false
  | clear => exact safe.still safe.toShaped.clear rfl le_rfl fun _ member => absurd member not_mem_nil

end Safe

end SyncQueue

end Warp.Sync
