import Warp.Remote.BufferRequests

namespace Warp.Remote

open List

open CodeReview (ConnectionId)

variable {connId : ConnectionId} {fileId other : FileId} {path : Str} {orphans : List FileId}

namespace ServerBufferTracker

variable {t : ServerBufferTracker} {kind : PendingBufferRequestKind} {request : PendingBufferRequest}

theorem takePendingByKind_eq : ∃ pending,
    t.takePendingByKind fileId kind =
        ((t.pendingRequests.values fileId).filter (·.kind = kind), { t with pendingRequests := pending }) ∧
      ∀ other, pending.values other =
        if other = fileId then (t.pendingRequests.values fileId).filter (·.kind ≠ kind) else t.pendingRequests.values other := by
  unfold takePendingByKind
  cases found : t.pendingRequests.get? fileId with
  | none =>
    have nothing : t.pendingRequests.values fileId = [] := by rw [HashMap.values, found]; rfl
    refine ⟨t.pendingRequests, by rw [nothing]; rfl, fun other => ?_⟩
    by_cases same : other = fileId
    · rw [if_pos same, same, nothing]
      rfl
    · rw [if_neg same]
  | some entries =>
    have here : t.pendingRequests.values fileId = entries := by rw [HashMap.values, found]; rfl
    dsimp only
    rw [here]
    refine ⟨_, rfl, fun other => ?_⟩
    by_cases empty : entries.filter (·.kind ≠ kind) = []
    · rw [if_pos empty, HashMap.values_remove, empty]
    · rw [if_neg empty, HashMap.values_insert]

theorem values_insertPending : (t.insertPending fileId request).pendingRequests.values other =
    if other = fileId then t.pendingRequests.values fileId ++ [request] else t.pendingRequests.values other := by
  unfold insertPending
  rw [HashMap.values_extend]
  split_ifs with same
  · rw [same]
  · exact append_nil _

theorem isSome_of_mem_connections (member : connId ∈ t.connections fileId) : (t.bufferConnections.get? fileId).isSome := by
  unfold connections at member
  cases found : t.bufferConnections.get? fileId with
  | none =>
    rw [found] at member
    exact absurd member (HashSet.notMem_empty connId)
  | some conns => rfl

structure Forgets (orphans : List FileId) (t t' : ServerBufferTracker) : Prop where
  handles : ∀ fileId, fileId ∈ t'.bufferHandles ↔ fileId ∈ t.bufferHandles ∧ fileId ∉ orphans
  connections : ∀ fileId, t'.bufferConnections.get? fileId = if fileId ∈ orphans then none else t.bufferConnections.get? fileId
  paths : ∀ path fileId, t'.openBuffers.get? path = some fileId ↔ t.openBuffers.get? path = some fileId ∧ fileId ∉ orphans
  pending : t'.pendingRequests = t.pendingRequests

theorem forget_forgets {openBuffers : HashMap Str FileId} (paths : ∀ path other,
    openBuffers.get? path = some other ↔ t.openBuffers.get? path = some other ∧ other ≠ fileId) :
    Forgets [fileId] t (t.forget fileId openBuffers) where
  handles other := by
    unfold forget
    rw [HashSet.mem_remove, mem_singleton]
  connections other := by
    unfold forget
    simp only [mem_singleton]
    exact HashMap.get?_remove _ _ _
  paths path other := by
    rw [mem_singleton]
    exact paths path other
  pending := rfl

theorem Forgets.trans {t' t'' : ServerBufferTracker} (first : Forgets [fileId] t t') (later : Forgets orphans t' t'') :
    Forgets (fileId :: orphans) t t'' where
  handles other := by
    rw [later.handles, first.handles, mem_singleton, mem_cons, not_or, and_assoc]
  connections other := by
    rw [later.connections, first.connections]
    simp only [mem_cons]
    by_cases same : other = fileId
    · simp [same]
    · simp [same]
  paths path other := by
    rw [later.paths, first.paths, mem_singleton, mem_cons, not_or, and_assoc]
  pending := later.pending.trans first.pending

theorem foldl_forgets (orphans : List FileId) (t : ServerBufferTracker) :
    Forgets orphans t (orphans.foldl
      (fun self fileId => self.forget fileId (self.openBuffers.retain fun _ id => id ≠ fileId)) t) := by
  induction orphans generalizing t with
  | nil => exact ⟨by simp, by simp, by simp, rfl⟩
  | cons fileId orphans ih =>
    refine (forget_forgets fun path other => ?_).trans (ih _)
    rw [HashMap.get?_retain, Option.filter_eq_some_iff]
    simp

theorem removeConnection_spec : ∃ left, Forgets (t.removeConnection connId).1 { t with bufferConnections := left }
      (t.removeConnection connId).2 ∧
    (∀ fileId, left.get? fileId = (t.bufferConnections.get? fileId).map (·.remove connId)) ∧
    ∀ fileId, fileId ∈ (t.removeConnection connId).1 ↔ ∃ conns, left.get? fileId = some conns ∧ conns.isEmpty = true := by
  refine ⟨t.bufferConnections.mapValues (·.remove connId), foldl_forgets _ _, fun fileId => HashMap.get?_mapValues _ _ _,
    fun fileId => ?_⟩
  unfold removeConnection
  simp only [List.mem_map, List.mem_filter]
  constructor
  · rintro ⟨⟨other, conns⟩, ⟨member, empty⟩, rfl⟩
    exact ⟨conns, HashMap.get?_eq_some_iff.mpr member, empty⟩
  · rintro ⟨conns, found, empty⟩
    exact ⟨(fileId, conns), ⟨HashMap.get?_eq_some_iff.mp found, empty⟩, rfl⟩

end ServerBufferTracker

namespace BufferServer

variable {s : BufferServer}

structure Removes (orphans : List FileId) (s s' : BufferServer) : Prop where
  locations : ∀ location fileId, s'.globalBuffers.locationToId.getByLeft location = some fileId ↔
    s.globalBuffers.locationToId.getByLeft location = some fileId ∧ fileId ∉ orphans
  buffers : ∀ fileId, s'.globalBuffers.buffers.get? fileId =
    if fileId ∈ orphans then none else s.globalBuffers.buffers.get? fileId
  files : ∀ fileId, fileId ∈ s'.fileModel.files ↔ fileId ∈ s.fileModel.files ∧ fileId ∉ orphans
  loads : ∀ fileId, fileId ∈ s'.fileModel.loads ↔ fileId ∈ s.fileModel.loads ∧ fileId ∉ orphans
  reloads : s'.globalBuffers.reloads = s.globalBuffers.reloads
  writes : s'.fileModel.writes = s.fileModel.writes
  nextFile : s'.nextFile = s.nextFile
  nextTask : s'.nextTask = s.nextTask

theorem remove_removes : Removes [fileId] s (s.remove fileId) where
  locations location other := by
    unfold remove
    rw [BiMap.getByLeft_eq_some_iff, BiMap.mem_removeByRight, BiMap.getByLeft_eq_some_iff, mem_singleton]
  buffers other := by
    unfold remove
    simp only [mem_singleton]
    exact HashMap.get?_remove _ _ _
  files other := by
    unfold remove
    rw [HashSet.mem_remove, mem_singleton]
  loads other := by
    unfold remove
    rw [HashSet.mem_remove, mem_singleton]
  reloads := rfl
  writes := rfl
  nextFile := rfl
  nextTask := rfl

theorem Removes.trans {s' s'' : BufferServer} (first : Removes [fileId] s s') (later : Removes orphans s' s'') :
    Removes (fileId :: orphans) s s'' where
  locations location other := by
    rw [later.locations, first.locations, mem_singleton, mem_cons, not_or, and_assoc]
  buffers other := by
    rw [later.buffers, first.buffers]
    simp only [mem_cons]
    by_cases same : other = fileId <;> simp [same]
  files other := by rw [later.files, first.files, mem_singleton, mem_cons, not_or, and_assoc]
  loads other := by rw [later.loads, first.loads, mem_singleton, mem_cons, not_or, and_assoc]
  reloads := later.reloads.trans first.reloads
  writes := later.writes.trans first.writes
  nextFile := later.nextFile.trans first.nextFile
  nextTask := later.nextTask.trans first.nextTask

theorem foldl_removes (orphans : List FileId) (s : BufferServer) : Removes orphans s (orphans.foldl remove s) := by
  induction orphans generalizing s with
  | nil => exact ⟨by simp, by simp, by simp, by simp, rfl, rfl, rfl, rfl⟩
  | cons fileId orphans ih => exact remove_removes.trans (ih _)

theorem Removes.of_withTracker {s' : BufferServer} {t : ServerBufferTracker} (removes : Removes orphans (s.withTracker t) s') :
    Removes orphans s s' :=
  ⟨removes.locations, removes.buffers, removes.files, removes.loads, removes.reloads, removes.writes, removes.nextFile,
    removes.nextTask⟩

theorem buffers_foldl_remove (orphans : List FileId) (s : BufferServer) : (orphans.foldl remove s).buffers = s.buffers := by
  induction orphans generalizing s with
  | nil => rfl
  | cons fileId orphans ih => exact ih _

/-- The buffers, the files and the tracker, but for what waits, stay as they are. -/
structure Steady (s s' : BufferServer) : Prop where
  handles : s'.buffers.bufferHandles = s.buffers.bufferHandles
  connections : s'.buffers.bufferConnections = s.buffers.bufferConnections
  openBuffers : s'.buffers.openBuffers = s.buffers.openBuffers
  buffers : ∀ fileId, (s'.globalBuffers.buffers.get? fileId).isSome ↔ (s.globalBuffers.buffers.get? fileId).isSome
  locations : s'.globalBuffers.locationToId = s.globalBuffers.locationToId
  files : s'.fileModel.files = s.fileModel.files
  loads : ∀ fileId ∈ s'.fileModel.loads, fileId ∈ s.fileModel.loads
  nextFile : s'.nextFile = s.nextFile

theorem Steady.refl (s : BufferServer) : Steady s s := ⟨rfl, rfl, rfl, fun _ => .rfl, rfl, rfl, fun _ => id, rfl⟩

theorem Steady.trans {s' s'' : BufferServer} (first : Steady s s') (later : Steady s' s'') : Steady s s'' where
  handles := later.handles.trans first.handles
  connections := later.connections.trans first.connections
  openBuffers := later.openBuffers.trans first.openBuffers
  buffers fileId := (later.buffers fileId).trans (first.buffers fileId)
  locations := later.locations.trans first.locations
  files := later.files.trans first.files
  loads fileId member := first.loads fileId (later.loads fileId member)
  nextFile := later.nextFile.trans first.nextFile

theorem steady_insertPending {request : PendingBufferRequest} :
    Steady s (s.withTracker (s.buffers.insertPending fileId request)) :=
  ⟨rfl, rfl, rfl, fun _ => .rfl, rfl, rfl, fun _ => id, rfl⟩

theorem steady_setBuffer {buffer : ServerBuffer} (present : (s.globalBuffers.buffers.get? fileId).isSome) :
    Steady s (s.setBuffer fileId buffer) where
  handles := rfl
  connections := rfl
  openBuffers := rfl
  buffers other := by
    unfold setBuffer
    dsimp only
    rw [HashMap.get?_insert]
    split_ifs with same
    · rw [same]
      exact iff_of_true rfl present
    · exact .rfl
  locations := rfl
  files := rfl
  loads _ := id
  nextFile := rfl

theorem steady_takePending {kind : PendingBufferRequestKind} {body : ResponseBody} :
    Steady s (s.takePending fileId kind body).2 := by
  obtain ⟨pending, taken, -⟩ := @ServerBufferTracker.takePendingByKind_eq fileId s.buffers kind
  unfold takePending
  rw [taken]
  exact ⟨rfl, rfl, rfl, fun _ => .rfl, rfl, rfl, fun _ => id, rfl⟩

theorem steady_takeSaves {save resolve : ResponseBody} : Steady s (s.takeSaves fileId save resolve).2 := by
  have saves : Steady s (s.takePending fileId .saveBuffer save).2 := steady_takePending
  exact saves.trans (@steady_takePending fileId _ .resolveConflict resolve)

variable {event : BufferEvent}

theorem steady_handleEvent : Steady s (s.handleEvent event).2 := by
  cases event with
  | bufferLoaded fileId => exact steady_takePending
  | failedToLoad fileId error => exact steady_takePending
  | fileSaved fileId => exact steady_takeSaves
  | failedToSave fileId error => exact steady_takeSaves

theorem handleEvents_singleton : s.handleEvents [event] = s.handleEvent event := by
  unfold handleEvents
  rw [foldl_cons, foldl_nil]
  rfl

namespace World

variable {w w' : World}

/-- The models, handles, files and connections of a buffer are there together, and its paths name it. -/
structure Coherent (w : World) : Prop where
  alive : ∀ fileId, fileId ∈ w.tracker.bufferHandles ↔ (w.server.globalBuffers.buffers.get? fileId).isSome
  connected : ∀ fileId, (w.tracker.bufferConnections.get? fileId).isSome ↔ (w.server.globalBuffers.buffers.get? fileId).isSome
  inhabited : ∀ fileId, (w.server.globalBuffers.buffers.get? fileId).isSome → ∃ connId, connId ∈ w.tracker.connections fileId
  files : ∀ fileId, (w.server.globalBuffers.buffers.get? fileId).isSome → fileId ∈ w.server.fileModel.files
  loads : ∀ fileId ∈ w.server.fileModel.loads, (w.server.globalBuffers.buffers.get? fileId).isSome
  holds : ∀ connId fileId, connId ∈ w.tracker.connections fileId ↔ (connId, fileId) ∈ w.holding
  paths : ∀ path fileId, w.tracker.openBuffers.get? path = some fileId ↔
    (path, fileId) ∈ w.opened ∧ (w.server.globalBuffers.buffers.get? fileId).isSome
  located : ∀ path fileId, w.tracker.openBuffers.get? path = some fileId →
    w.server.globalBuffers.locationToId.getByLeft (.ofStr path) = some fileId
  named : ∀ fileId, (w.server.globalBuffers.buffers.get? fileId).isSome → ∃ path, w.tracker.openBuffers.get? path = some fileId
  known : ∀ location fileId, w.server.globalBuffers.locationToId.getByLeft location = some fileId →
    (w.server.globalBuffers.buffers.get? fileId).isSome
  numbered : ∀ path fileId, (path, fileId) ∈ w.opened → fileId.id < w.server.nextFile

theorem new_coherent : new.Coherent where
  alive fileId := by simp [new, BufferServer.new, tracker, ServerBufferTracker.new]
  connected fileId := by simp [new, BufferServer.new, tracker, ServerBufferTracker.new]
  inhabited fileId present := by cases present
  files fileId present := by cases present
  loads fileId member := absurd member (HashSet.notMem_empty fileId)
  holds connId fileId := by simp [new, BufferServer.new, tracker, ServerBufferTracker.new, ServerBufferTracker.connections]
  paths path fileId := by simp [new, BufferServer.new, tracker, ServerBufferTracker.new]
  located path fileId found := by cases found
  named fileId present := by cases present
  known location fileId found := by cases found
  numbered path fileId member := by cases member

section

variable (coherent : w.Coherent)
include coherent

theorem Coherent.isSome_of_path (found : w.tracker.openBuffers.get? path = some fileId) :
    (w.server.globalBuffers.buffers.get? fileId).isSome := ((coherent.paths path fileId).mp found).2

theorem Coherent.buffer?_eq : w.server.buffer? fileId = w.server.globalBuffers.buffers.get? fileId := by
  unfold buffer?
  by_cases alive : fileId ∈ w.server.buffers.bufferHandles
  · rw [if_pos alive]
  · rw [if_neg alive]
    exact (Option.not_isSome_iff_eq_none.mp (mt (coherent.alive fileId).mpr alive)).symm

theorem Coherent.held_iff :
    (w.server.globalBuffers.buffers.get? fileId).isSome ↔ ∃ connId, (connId, fileId) ∈ w.holding := by
  constructor
  · intro present
    obtain ⟨connId, member⟩ := coherent.inhabited fileId present
    exact ⟨connId, (coherent.holds connId fileId).mp member⟩
  · rintro ⟨connId, member⟩
    exact (coherent.connected fileId).mp (ServerBufferTracker.isSome_of_mem_connections ((coherent.holds connId fileId).mpr member))

theorem Coherent.getByRight_isSome (present : (w.server.globalBuffers.buffers.get? fileId).isSome) :
    (w.server.globalBuffers.locationToId.getByRight fileId).isSome := by
  obtain ⟨path, named⟩ := coherent.named fileId present
  have located := BiMap.getByLeft_eq_some_iff.mp (coherent.located path fileId named)
  exact Option.isSome_iff_exists.mpr ⟨_, BiMap.getByRight_eq_some_iff.mpr located⟩

theorem Coherent.steady (steady : Steady w.server w'.server) (opened : w'.opened = w.opened)
    (holding : w'.holding = w.holding) : w'.Coherent where
  alive fileId := by
    rw [steady.buffers, ← coherent.alive]
    unfold tracker
    rw [steady.handles]
  connected fileId := by
    rw [steady.buffers, ← coherent.connected]
    unfold tracker
    rw [steady.connections]
  inhabited fileId present := by
    rw [tracker, ServerBufferTracker.connections, steady.connections]
    exact coherent.inhabited fileId ((steady.buffers fileId).mp present)
  files fileId present := by
    rw [steady.files]
    exact coherent.files fileId ((steady.buffers fileId).mp present)
  loads fileId member := (steady.buffers fileId).mpr (coherent.loads fileId (steady.loads fileId member))
  holds connId fileId := by
    rw [tracker, ServerBufferTracker.connections, steady.connections, holding]
    exact coherent.holds connId fileId
  paths path fileId := by
    rw [opened, steady.buffers, ← coherent.paths]
    unfold tracker
    rw [steady.openBuffers]
  located path fileId found := by
    rw [tracker, steady.openBuffers] at found
    rw [steady.locations]
    exact coherent.located path fileId found
  named fileId present := by
    rw [tracker, steady.openBuffers]
    exact coherent.named fileId ((steady.buffers fileId).mp present)
  known location fileId found := by
    rw [steady.locations] at found
    exact (steady.buffers fileId).mpr (coherent.known location fileId found)
  numbered path fileId member := by
    rw [opened] at member
    rw [steady.nextFile]
    exact coherent.numbered path fileId member

end

/-- A connection opens a buffer, which may be a new one. -/
structure Places (s s' : BufferServer) (path : Str) (fileId : FileId) (connId : ConnectionId) : Prop where
  handles : ∀ other, other ∈ s'.buffers.bufferHandles ↔ other = fileId ∨ other ∈ s.buffers.bufferHandles
  connections : s'.buffers.bufferConnections =
    s.buffers.bufferConnections.insert fileId ((s.buffers.connections fileId).insert connId)
  paths : ∀ other, s'.buffers.openBuffers.get? other = if other = path then some fileId else s.buffers.openBuffers.get? other
  buffers : ∀ other, (s'.globalBuffers.buffers.get? other).isSome ↔
    other = fileId ∨ (s.globalBuffers.buffers.get? other).isSome
  locations : ∀ location other, s'.globalBuffers.locationToId.getByLeft location = some other ↔
    location = .ofStr path ∧ other = fileId ∨ s.globalBuffers.locationToId.getByLeft location = some other
  files : ∀ other, other = fileId ∨ other ∈ s.fileModel.files → other ∈ s'.fileModel.files
  loads : ∀ other ∈ s'.fileModel.loads, other = fileId ∨ other ∈ s.fileModel.loads
  nextFile : s.nextFile ≤ s'.nextFile
  numbered : fileId.id < s'.nextFile
  located : ∀ other, s.globalBuffers.locationToId.getByLeft (.ofStr path) = some other → other = fileId

theorem Coherent.place (coherent : w.Coherent) (places : Places w.server w'.server path fileId connId)
    (known : ∀ other, (other, fileId) ∈ w.opened → (w.server.globalBuffers.buffers.get? fileId).isSome)
    (opened : w'.opened = w.opened ++ [(path, fileId)]) (holding : w'.holding = w.holding ++ [(connId, fileId)]) :
    w'.Coherent where
  alive other := by rw [tracker, places.handles, places.buffers, ← coherent.alive]; rfl
  connected other := by
    rw [tracker, places.connections, HashMap.get?_insert, places.buffers, ← coherent.connected]
    by_cases same : other = fileId
    · simp [same]
    · simp [same, tracker]
  inhabited other present := by
    rw [tracker, ServerBufferTracker.connections, places.connections, HashMap.get?_insert]
    by_cases same : other = fileId
    · rw [if_pos same]
      exact ⟨connId, HashSet.mem_insert.mpr (.inl rfl)⟩
    · rw [if_neg same]
      exact coherent.inhabited other (((places.buffers other).mp present).resolve_left same)
  files other present := places.files other (((places.buffers other).mp present).imp_right (coherent.files other))
  loads other member := (places.buffers other).mpr ((places.loads other member).imp_right (coherent.loads other))
  holds conn other := by
    rw [holding, mem_append, mem_singleton, ← coherent.holds, Prod.mk.injEq, tracker,
      ServerBufferTracker.connections, places.connections, HashMap.get?_insert]
    by_cases same : other = fileId
    · rw [if_pos same, same]
      exact HashSet.mem_insert.trans (by simp [tracker, or_comm])
    · rw [if_neg same]
      simp [same, tracker, ServerBufferTracker.connections]
  paths other id := by
    rw [tracker, places.paths, opened, mem_append, mem_singleton, Prod.mk.injEq, places.buffers]
    by_cases here : other = path
    · rw [if_pos here, Option.some_inj]
      refine ⟨fun same => ⟨.inr ⟨here, same.symm⟩, .inl same.symm⟩, ?_⟩
      rintro ⟨member, present⟩
      by_contra apart
      have member : (other, id) ∈ w.opened := member.resolve_right fun same => apart same.2.symm
      have present := present.resolve_left fun same => apart same.symm
      have found := coherent.located other id ((coherent.paths other id).mpr ⟨member, present⟩)
      exact apart (places.located id (here ▸ found)).symm
    · rw [if_neg here]
      refine (coherent.paths other id).trans ⟨And.imp .inl .inr, ?_⟩
      rintro ⟨member, present⟩
      have member : (other, id) ∈ w.opened := member.resolve_right fun same => here same.1
      refine ⟨member, present.elim (fun same => ?_) fun present => present⟩
      rw [same] at member ⊢
      exact known other member
  located other id found := by
    rw [tracker, places.paths] at found
    rw [places.locations]
    by_cases here : other = path
    · rw [if_pos here] at found
      exact .inl ⟨by rw [here], (Option.some_inj.mp found).symm⟩
    · rw [if_neg here] at found
      exact .inr (coherent.located other id found)
  named other present := by
    by_cases same : other = fileId
    · refine ⟨path, ?_⟩
      rw [tracker, places.paths, if_pos rfl, same]
    · obtain ⟨name, named⟩ := coherent.named other (((places.buffers other).mp present).resolve_left same)
      refine ⟨name, ?_⟩
      rw [tracker, places.paths]
      by_cases here : name = path
      · have isFile := places.located other (here ▸ coherent.located name other named)
        exact absurd isFile same
      · rw [if_neg here]
        exact named
  known location other found := by
    rw [places.locations] at found
    exact (places.buffers other).mpr (found.imp And.right (coherent.known location other))
  numbered name other member := by
    rw [opened, mem_append, mem_singleton, Prod.mk.injEq] at member
    rcases member with old | ⟨-, same⟩
    · exact Nat.lt_of_lt_of_le (coherent.numbered name other old) places.nextFile
    · rw [same]
      exact places.numbered

variable {t : ServerBufferTracker} {content : Str} {request : PendingBufferRequest} {result : Except Str Str}

theorem Coherent.leave (coherent : w.Coherent) (handles : t.bufferHandles = w.tracker.bufferHandles)
    (paths : t.openBuffers = w.tracker.openBuffers)
    (isSome : ∀ fileId, (t.bufferConnections.get? fileId).isSome ↔ (w.tracker.bufferConnections.get? fileId).isSome)
    (forgets : ServerBufferTracker.Forgets orphans t w'.tracker) (removes : Removes orphans w.server w'.server)
    (inhabited : ∀ fileId ∉ orphans, (t.bufferConnections.get? fileId).isSome → ∃ connId, connId ∈ t.connections fileId)
    (holds : ∀ connId fileId, connId ∈ w'.tracker.connections fileId ↔ (connId, fileId) ∈ w'.holding)
    (opened : w'.opened = w.opened) : w'.Coherent := by
  have buffers : ∀ fileId, (w'.server.globalBuffers.buffers.get? fileId).isSome ↔
      (w.server.globalBuffers.buffers.get? fileId).isSome ∧ fileId ∉ orphans := by
    intro fileId
    rw [removes.buffers]
    by_cases orphaned : fileId ∈ orphans <;> simp [orphaned]
  have tracked : ∀ path fileId, w'.tracker.openBuffers.get? path = some fileId ↔
      w.tracker.openBuffers.get? path = some fileId ∧ fileId ∉ orphans := by
    intro path fileId
    rw [forgets.paths, paths]
  exact
    { alive := fun fileId => by rw [forgets.handles, handles, coherent.alive, buffers]
      connected := fun fileId => by
        rw [forgets.connections, buffers, ← coherent.connected, ← isSome]
        by_cases orphaned : fileId ∈ orphans <;> simp [orphaned]
      inhabited := fun fileId present => by
        obtain ⟨present, kept⟩ := (buffers fileId).mp present
        have here : w'.tracker.connections fileId = t.connections fileId := by
          unfold ServerBufferTracker.connections
          rw [forgets.connections, if_neg kept]
        rw [here]
        exact inhabited fileId kept ((isSome fileId).mpr ((coherent.connected fileId).mpr present))
      files := fun fileId present => by
        obtain ⟨present, kept⟩ := (buffers fileId).mp present
        exact (removes.files fileId).mpr ⟨coherent.files fileId present, kept⟩
      loads := fun fileId member => by
        obtain ⟨member, kept⟩ := (removes.loads fileId).mp member
        exact (buffers fileId).mpr ⟨coherent.loads fileId member, kept⟩
      holds := holds
      paths := fun path fileId => by rw [tracked, coherent.paths, opened, buffers, and_assoc]
      located := fun path fileId found => by
        obtain ⟨found, kept⟩ := (tracked path fileId).mp found
        exact (removes.locations _ _).mpr ⟨coherent.located path fileId found, kept⟩
      named := fun fileId present => by
        obtain ⟨present, kept⟩ := (buffers fileId).mp present
        obtain ⟨path, named⟩ := coherent.named fileId present
        exact ⟨path, (tracked path fileId).mpr ⟨named, kept⟩⟩
      known := fun location fileId found => by
        obtain ⟨found, kept⟩ := (removes.locations _ _).mp found
        exact (buffers fileId).mpr ⟨coherent.known location fileId found, kept⟩
      numbered := fun path fileId member => by
        rw [removes.nextFile]
        exact coherent.numbered path fileId (opened ▸ member) }

section Opening

variable {request : PendingBufferRequest}

def joined (s : BufferServer) (path : Str) (fileId : FileId) (connId : ConnectionId) : BufferServer :=
  s.withTracker ((s.buffers.trackOpenBuffer path fileId).addConnection fileId connId)

theorem Coherent.places_joined (coherent : w.Coherent)
    (located : w.server.globalBuffers.locationToId.getByLeft (.ofStr path) = some fileId) :
    Places w.server (joined w.server path fileId connId) path fileId connId := by
  have present := coherent.known _ _ located
  obtain ⟨name, named⟩ := coherent.named fileId present
  exact
    { handles := fun other => HashSet.mem_insert
      connections := rfl
      paths := fun other => HashMap.get?_insert _ _ _ _
      buffers := fun other => (or_iff_right_of_imp fun same => same ▸ present).symm
      locations := fun location other => (or_iff_right_of_imp fun ⟨here, same⟩ => by
        show w.server.globalBuffers.locationToId.getByLeft _ = _
        rw [here, same, located]).symm
      files := fun other member => member.elim (fun same => same ▸ coherent.files fileId present) id
      loads := fun other => .inr
      nextFile := Nat.le_refl _
      numbered := coherent.numbered name fileId ((coherent.paths name fileId).mp named).1
      located := fun other found => Option.some_inj.mp (found.symm.trans located) }

theorem Coherent.places_again (coherent : w.Coherent) (tracked : w.tracker.openBuffers.get? path = some fileId) :
    Places w.server (w.server.withTracker (w.tracker.addConnection fileId connId)) path fileId connId := by
  have present := coherent.isSome_of_path tracked
  have located := coherent.located path fileId tracked
  exact
    { handles := fun other => (or_iff_right_of_imp fun same => same ▸ (coherent.alive fileId).mpr present).symm
      connections := rfl
      paths := fun other => by
        show w.tracker.openBuffers.get? other = _
        by_cases same : other = path
        · rw [if_pos same, same, tracked]
        · rw [if_neg same]
          rfl
      buffers := fun other => (or_iff_right_of_imp fun same => same ▸ present).symm
      locations := fun location other => (or_iff_right_of_imp fun ⟨here, same⟩ => by
        show w.server.globalBuffers.locationToId.getByLeft _ = _
        rw [here, same, located]).symm
      files := fun other member => member.elim (fun same => same ▸ coherent.files fileId present) id
      loads := fun other => .inr
      nextFile := Nat.le_refl _
      numbered := coherent.numbered path fileId ((coherent.paths path fileId).mp tracked).1
      located := fun other found => Option.some_inj.mp (found.symm.trans located) }

theorem Coherent.fresh_file (coherent : w.Coherent) : w.server.globalBuffers.buffers.get? ⟨w.server.nextFile⟩ = none := by
  by_contra present
  obtain ⟨name, named⟩ := coherent.named _ (Option.ne_none_iff_isSome.mp present)
  exact Nat.lt_irrefl _ (coherent.numbered name _ ((coherent.paths name _).mp named).1)

theorem Coherent.places_new (coherent : w.Coherent)
    (missing : w.server.globalBuffers.locationToId.getByLeft (.ofStr path) = none) :
    Places w.server (joined (w.server.createNewBuffer (.ofStr path)).2 path ⟨w.server.nextFile⟩ connId) path
      ⟨w.server.nextFile⟩ connId where
  handles other := HashSet.mem_insert
  connections := rfl
  paths other := HashMap.get?_insert _ _ _ _
  buffers other := by
    show ((w.server.globalBuffers.buffers.insert _ _).get? other).isSome ↔ _
    rw [HashMap.get?_insert]
    split_ifs with same
    · simp [same]
    · simp [same]
  locations location other := by
    show (w.server.globalBuffers.locationToId.insert _ _).getByLeft location = some other ↔ _
    rw [BiMap.getByLeft_eq_some_iff, BiMap.mem_insert, BiMap.getByLeft_eq_some_iff, Prod.mk.injEq, or_comm]
    refine or_congr_right (and_iff_left_of_imp fun member => ?_)
    have found := BiMap.getByLeft_eq_some_iff.mpr member
    refine ⟨fun here => ?_, fun same => ?_⟩
    · rw [show location = _ from here, missing] at found
      cases found
    · have present := coherent.known location other found
      rw [show other = _ from same, coherent.fresh_file] at present
      cases present
  files other := HashSet.mem_insert.mpr
  loads other := HashSet.mem_insert.mp
  nextFile := Nat.le_succ _
  numbered := Nat.lt_succ_self _
  located other found := by
    rw [missing] at found
    cases found

/-- What opening a buffer does: it is read again, reported as it is, or waited for. -/
inductive Opens (s : BufferServer) (path : Str) (forceReload : Bool) (request : PendingBufferRequest) :
    List Response × BufferServer → Prop
  | reload (fileId : FileId) (placed : BufferServer)
      (places : Places s placed path fileId request.connectionId)
      (located : s.globalBuffers.locationToId.getByLeft (.ofStr path) = some fileId)
      (same : placed = s.withTracker (s.buffers.addConnection fileId request.connectionId)) :
      Opens s path forceReload request
        ([], { placed.withTracker (placed.buffers.insertPending fileId request) with
          globalBuffers := { placed.globalBuffers with reloads := placed.globalBuffers.reloads ++ [⟨placed.nextTask, fileId⟩] }
          nextTask := placed.nextTask + 1 })
  | loaded (fileId : FileId) (placed : BufferServer)
      (places : Places s placed path fileId request.connectionId) (same : placed = joined s path fileId request.connectionId)
      (located : s.globalBuffers.locationToId.getByLeft (.ofStr path) = some fileId) :
      Opens s path forceReload request
        (⟨request, placed.openedBody fileId⟩ :: (placed.handleEvent (.bufferLoaded fileId)).1,
          (placed.handleEvent (.bufferLoaded fileId)).2)
  | waits (fileId : FileId) (placed : BufferServer)
      (places : Places s placed path fileId request.connectionId)
      (located : s.globalBuffers.locationToId.getByLeft (.ofStr path) = some fileId)
      (busy : ¬ (forceReload ∧ s.buffers.fileIdForPath path = some fileId) ∧ ¬ s.bufferLoaded fileId)
      (same : placed = joined s path fileId request.connectionId) :
      Opens s path forceReload request ([], placed.withTracker (placed.buffers.insertPending fileId request))
  | creates (placed : BufferServer)
      (places : Places s placed path ⟨s.nextFile⟩ request.connectionId)
      (same : placed = joined (s.createNewBuffer (.ofStr path)).2 path ⟨s.nextFile⟩ request.connectionId) :
      Opens s path forceReload request ([], placed.withTracker (placed.buffers.insertPending ⟨s.nextFile⟩ request))

theorem Coherent.reopenBuffer_eq (coherent : w.Coherent) (tracked : w.tracker.openBuffers.get? path = some fileId) :
    let placed := w.server.withTracker (w.tracker.addConnection fileId request.connectionId)
    w.server.reopenBuffer fileId request =
      ([], { placed.withTracker (placed.buffers.insertPending fileId request) with
        globalBuffers := { placed.globalBuffers with reloads := placed.globalBuffers.reloads ++ [⟨placed.nextTask, fileId⟩] }
        nextTask := placed.nextTask + 1 }) := by
  have present := coherent.isSome_of_path tracked
  have located := coherent.getByRight_isSome present
  unfold reopenBuffer forceReloadServerLocal withTracker
  dsimp only
  rw [if_neg (by simpa using Option.isSome_iff_ne_none.mp present), if_neg (by simpa using Option.isSome_iff_ne_none.mp located)]
  rfl

theorem openServerLocal_new (missing : s.globalBuffers.locationToId.getByLeft (.ofStr path) = none) :
    s.openServerLocal (.ofStr path) = (⟨s.nextFile⟩, [], (s.createNewBuffer (.ofStr path)).2) := by
  unfold openServerLocal
  rw [missing]
  rfl

theorem openServerLocal_again {buffer : ServerBuffer}
    (located : s.globalBuffers.locationToId.getByLeft (.ofStr path) = some fileId) (found : s.buffer? fileId = some buffer) :
    s.openServerLocal (.ofStr path) = (fileId, if buffer.loaded then [.bufferLoaded fileId] else [], s) := by
  unfold openServerLocal
  rw [located]
  dsimp only
  rw [found]

variable {forceReload : Bool}

theorem handleOpenBuffer_joins (again : (if forceReload then s.buffers.fileIdForPath path else none) = none) :
    s.handleOpenBuffer path forceReload request =
      let (fileId, events, opened) := s.openServerLocal (.ofStr path)
      let placed := joined opened path fileId request.connectionId
      if placed.bufferLoaded fileId then
        (⟨request, placed.openedBody fileId⟩ :: (placed.handleEvents events).1, (placed.handleEvents events).2)
      else (placed.withTracker (placed.buffers.insertPending fileId request)).handleEvents events := by
  unfold handleOpenBuffer
  rw [again]
  rfl

theorem Coherent.opens (coherent : w.Coherent) :
    Opens w.server path forceReload request (w.server.handleOpenBuffer path forceReload request) := by
  cases again : if forceReload then w.server.buffers.fileIdForPath path else none with
  | some fileId =>
    have tracked : w.tracker.openBuffers.get? path = some fileId := by
      cases forceReload with
      | false => cases again
      | true => exact again
    unfold handleOpenBuffer
    rw [again]
    dsimp only
    rw [coherent.reopenBuffer_eq tracked]
    exact .reload fileId _ (coherent.places_again tracked) (coherent.located path fileId tracked) rfl
  | none =>
    rw [handleOpenBuffer_joins again]
    cases located : w.server.globalBuffers.locationToId.getByLeft (.ofStr path) with
    | none =>
      have unloaded : (joined (w.server.createNewBuffer (.ofStr path)).2 path ⟨w.server.nextFile⟩
          request.connectionId).bufferLoaded ⟨w.server.nextFile⟩ = false := by
        show (((w.server.globalBuffers.buffers.insert _ _).get? _).map ServerBuffer.loaded).getD false = false
        rw [HashMap.get?_insert, if_pos rfl]
        rfl
      rw [openServerLocal_new located]
      dsimp only
      rw [if_neg (Bool.eq_false_iff.mp unloaded)]
      exact .creates _ (coherent.places_new located) rfl
    | some fileId =>
      obtain ⟨buffer, found⟩ := Option.isSome_iff_exists.mp (coherent.known _ _ located)
      have places : Places w.server (joined w.server path fileId request.connectionId) path fileId request.connectionId :=
        coherent.places_joined located
      have isLoaded : w.server.bufferLoaded fileId = buffer.loaded := by
        unfold bufferLoaded
        rw [found]
        rfl
      rw [openServerLocal_again located (coherent.buffer?_eq.trans found)]
      dsimp only
      by_cases loaded : buffer.loaded = true
      · rw [if_pos (show (joined w.server path fileId request.connectionId).bufferLoaded fileId = true from
          isLoaded.trans loaded), if_pos loaded, handleEvents_singleton]
        exact .loaded fileId _ places rfl located
      · rw [if_neg (show ¬ (joined w.server path fileId request.connectionId).bufferLoaded fileId = true from
          isLoaded.trans_ne loaded), if_neg loaded]
        refine .waits fileId _ places located ⟨fun ⟨forced, tracked⟩ => ?_, fun isLoaded' => loaded ?_⟩ rfl
        · rw [if_pos forced, tracked] at again
          cases again
        · exact isLoaded.symm.trans isLoaded'

theorem Opens.placed {outcome : List Response × BufferServer} (opens : Opens s path forceReload request outcome) :
    ∃ placed fileId, Places s placed path fileId request.connectionId ∧
      Steady placed outcome.2 ∧
        (fileId = ⟨s.nextFile⟩ ∨ s.globalBuffers.locationToId.getByLeft (.ofStr path) = some fileId) := by
  cases opens with
  | reload fileId placed places located same =>
    exact ⟨placed, fileId, places, ⟨rfl, rfl, rfl, fun _ => .rfl, rfl, rfl, fun _ => id, rfl⟩, .inr located⟩
  | loaded fileId placed places same located => exact ⟨placed, fileId, places, steady_handleEvent, .inr located⟩
  | waits fileId placed places located busy same => exact ⟨placed, fileId, places, steady_insertPending, .inr located⟩
  | creates placed places same => exact ⟨placed, _, places, steady_insertPending, .inl rfl⟩

theorem Coherent.openBuffer (coherent : w.Coherent) {requestId : RequestId} :
    (w.step (.openBuffer connId requestId path forceReload)).Coherent := by
  let pending : PendingBufferRequest := ⟨requestId, connId, .openBuffer⟩
  have opens : Opens w.server path forceReload pending (w.server.handleOpenBuffer path forceReload pending) := coherent.opens
  obtain ⟨placed, fileId, places, steady, origin⟩ := opens.placed
  have tracked : (w.server.handleOpenBuffer path forceReload pending).2.buffers.fileIdForPath path = some fileId := by
    unfold ServerBufferTracker.fileIdForPath
    rw [steady.openBuffers, places.paths, if_pos rfl]
  have placedCoherent : Coherent { w with
      server := placed, opened := w.opened ++ [(path, fileId)], holding := w.holding ++ [(connId, fileId)] } := by
    refine coherent.place places (fun other member => ?_) rfl rfl
    rcases origin with new | located
    · have before := coherent.numbered other fileId member
      rw [new] at before
      exact absurd before (Nat.lt_irrefl _)
    · exact coherent.known _ fileId located
  unfold step hold
  dsimp only
  rw [show (w.handle pending _ _).tracker.fileIdForPath path = some fileId from tracked]
  exact placedCoherent.steady steady rfl rfl

end Opening

theorem mem_connections_of_left {left : HashMap FileId (HashSet ConnectionId)}
    (isLeft : left.get? fileId = (t.bufferConnections.get? fileId).map (·.remove connId)) {other : ConnectionId} :
    other ∈ { t with bufferConnections := left }.connections fileId ↔ other ∈ t.connections fileId ∧ other ≠ connId := by
  unfold ServerBufferTracker.connections
  dsimp only
  rw [isLeft]
  cases t.bufferConnections.get? fileId with
  | none => simp
  | some conns => exact HashSet.mem_remove

theorem Coherent.disconnect (coherent : w.Coherent) : (w.step (.disconnect connId)).Coherent := by
  obtain ⟨left, forgets, isLeft, orphaned⟩ := @ServerBufferTracker.removeConnection_spec connId w.tracker
  have tracker : (w.step (.disconnect connId)).tracker = (w.tracker.removeConnection connId).2 := buffers_foldl_remove _ _
  rw [← tracker] at forgets
  refine coherent.leave (t := { w.tracker with bufferConnections := left }) rfl rfl ?_ forgets
    (foldl_removes _ _).of_withTracker ?_ ?_ rfl
  · intro fileId
    show (left.get? fileId).isSome ↔ _
    rw [isLeft, Option.isSome_map]
  · intro fileId kept present
    obtain ⟨conns, found⟩ := Option.isSome_iff_exists.mp present
    by_contra nobody
    refine kept ((orphaned fileId).mpr ⟨conns, found, HashSet.isEmpty_iff.mpr fun other member => nobody ⟨other, ?_⟩⟩)
    unfold ServerBufferTracker.connections
    rw [found]
    exact member
  · intro other fileId
    show _ ↔ (other, fileId) ∈ w.holding.filter (·.1 ≠ connId)
    rw [List.mem_filter, ← coherent.holds, decide_eq_true_eq, ← mem_connections_of_left (isLeft fileId)]
    unfold ServerBufferTracker.connections
    rw [forgets.connections]
    by_cases isOrphan : fileId ∈ (w.tracker.removeConnection connId).1
    · obtain ⟨conns, found, empty⟩ := (orphaned fileId).mp isOrphan
      rw [if_pos isOrphan]
      dsimp only
      rw [found]
      exact iff_of_false (HashSet.notMem_empty _) (HashSet.isEmpty_iff.mp empty other)
    · rw [if_neg isOrphan]

theorem mem_connections_insert {conns : HashSet ConnectionId} {other : ConnectionId} {id : FileId} :
    other ∈ { t with bufferConnections := t.bufferConnections.insert fileId conns }.connections id ↔
      if id = fileId then other ∈ conns else other ∈ t.connections id := by
  unfold ServerBufferTracker.connections
  dsimp only
  rw [HashMap.get?_insert]
  split_ifs <;> rfl

theorem Coherent.holds_without (coherent : w.Coherent) (tracked : w.tracker.openBuffers.get? path = some fileId)
    {other : ConnectionId} {id : FileId} :
    (other, id) ∈ w.holding.filter (fun held => ¬ (held.1 = connId ∧ w.tracker.fileIdForPath path = some held.2)) ↔
      other ∈ w.tracker.connections id ∧ ¬ (other = connId ∧ id = fileId) := by
  rw [List.mem_filter, coherent.holds, decide_eq_true_eq, ServerBufferTracker.fileIdForPath, tracked, Option.some_inj,
    eq_comm (a := fileId)]

theorem Coherent.closeBuffer (coherent : w.Coherent) (proper : w.Proper (.closeBuffer connId path)) :
    (w.step (.closeBuffer connId path)).Coherent := by
  cases tracked : w.tracker.openBuffers.get? path with
  | none =>
    have server : w.server.handleCloseBuffer path connId = w.server := by
      unfold handleCloseBuffer ServerBufferTracker.closeBuffer
      rw [show w.server.buffers.openBuffers.get? path = none from tracked]
      rfl
    have held : w.holding.filter (fun held => ¬ (held.1 = connId ∧ w.tracker.fileIdForPath path = some held.2)) = w.holding := by
      apply List.filter_eq_self.mpr
      intro held _
      simp [ServerBufferTracker.fileIdForPath, tracked]
    unfold step
    dsimp only
    rw [server, held]
    exact coherent
  | some fileId =>
    have present := coherent.isSome_of_path tracked
    have connected := (coherent.connected fileId).mpr present
    let conns := (w.tracker.connections fileId).remove connId
    by_cases empty : conns.isEmpty = true
    · have server : w.server.handleCloseBuffer path connId =
          (w.server.withTracker (w.tracker.forget fileId (w.tracker.openBuffers.remove path))).remove fileId := by
        unfold handleCloseBuffer ServerBufferTracker.closeBuffer
        rw [show w.server.buffers.openBuffers.get? path = some fileId from tracked]
        dsimp only
        rw [show ((w.server.buffers.connections fileId).remove connId).isEmpty = true from empty, if_pos rfl]
        rfl
      have last : w.Last connId fileId := by
        intro other member
        by_contra apart
        exact HashSet.isEmpty_iff.mp empty other (HashSet.mem_remove.mpr ⟨member, apart⟩)
      obtain ⟨-, only⟩ := proper fileId tracked last
      have forgets : ServerBufferTracker.Forgets [fileId] w.tracker
          (w.tracker.forget fileId (w.tracker.openBuffers.remove path)) := by
        apply ServerBufferTracker.forget_forgets
        intro other id
        rw [HashMap.get?_remove]
        by_cases same : other = path
        · rw [if_pos same, same, tracked]
          simp [eq_comm]
        · rw [if_neg same]
          refine ⟨fun found => ⟨found, fun isId => same (only other (isId ▸ found))⟩, And.left⟩
      unfold step
      dsimp only
      rw [server]
      refine coherent.leave (t := w.tracker) rfl rfl (fun _ => .rfl) forgets remove_removes.of_withTracker ?_ ?_ rfl
      · exact fun id _ found => coherent.inhabited id ((coherent.connected id).mp found)
      · intro other id
        rw [coherent.holds_without tracked]
        show other ∈ (w.tracker.forget fileId (w.tracker.openBuffers.remove path)).connections id ↔ _
        unfold ServerBufferTracker.connections
        rw [forgets.connections]
        by_cases same : id = fileId
        · rw [if_pos (List.mem_singleton.mpr same), same]
          refine iff_of_false (HashSet.notMem_empty _) fun held => held.2 ⟨last other held.1, rfl⟩
        · rw [if_neg (mt List.mem_singleton.mp same)]
          exact (and_iff_left fun held => same held.2).symm
    · have server : w.server.handleCloseBuffer path connId =
          w.server.withTracker { w.tracker with bufferConnections := w.tracker.bufferConnections.insert fileId conns } := by
        unfold handleCloseBuffer ServerBufferTracker.closeBuffer
        rw [show w.server.buffers.openBuffers.get? path = some fileId from tracked]
        dsimp only
        rw [if_neg (show ¬ ((w.server.buffers.connections fileId).remove connId).isEmpty = true from empty)]
        rfl
      unfold step
      dsimp only
      rw [server]
      refine coherent.leave
        (t := { w.tracker with bufferConnections := w.tracker.bufferConnections.insert fileId conns }) rfl rfl ?_
        (ServerBufferTracker.foldl_forgets [] _) (foldl_removes [] _).of_withTracker ?_ ?_ rfl
      · intro id
        dsimp only
        rw [HashMap.get?_insert]
        split_ifs with same
        · rw [same]
          exact iff_of_true rfl connected
        · exact .rfl
      · intro id _ found
        dsimp only at found
        rw [HashMap.get?_insert] at found
        by_cases same : id = fileId
        · by_contra nobody
          refine empty (HashSet.isEmpty_iff.mpr fun other member => nobody ⟨other, ?_⟩)
          rw [mem_connections_insert, if_pos same]
          exact member
        · rw [if_neg same] at found
          obtain ⟨other, member⟩ := coherent.inhabited id ((coherent.connected id).mp found)
          refine ⟨other, ?_⟩
          rw [mem_connections_insert, if_neg same]
          exact member
      · intro other id
        rw [coherent.holds_without tracked]
        refine mem_connections_insert.trans ?_
        split_ifs with same
        · rw [HashSet.mem_remove, same]
          simp
        · simp [same]

theorem steady_saveFile {saved : BufferServer} (ok : s.saveFile fileId content = .ok saved) : Steady s saved := by
  unfold saveFile at ok
  split_ifs at ok
  cases ok
  exact ⟨rfl, rfl, rfl, fun _ => .rfl, rfl, rfl, fun _ => id, rfl⟩

theorem steady_handleSaveBuffer : Steady s (s.handleSaveBuffer path request).2 := by
  unfold handleSaveBuffer
  cases s.buffers.fileIdForPath path with
  | none => exact .refl s
  | some fileId =>
    dsimp only
    cases saved : s.saveServerLocal fileId with
    | error e => exact .refl s
    | ok saved' =>
      unfold saveServerLocal at saved
      split_ifs at saved
      cases found : s.buffer? fileId with
      | none =>
        rw [found] at saved
        cases saved
      | some buffer =>
        rw [found] at saved
        exact (steady_saveFile saved).trans steady_insertPending

theorem steady_resolveConflict {version : ℕ} : Steady s (s.resolveConflict fileId version content).1 := by
  unfold resolveConflict
  cases found : s.globalBuffers.buffers.get? fileId with
  | none => exact .refl s
  | some buffer =>
    have present : (s.globalBuffers.buffers.get? fileId).isSome := by rw [found]; rfl
    dsimp only
    split_ifs
    · cases saved : (s.setBuffer fileId ⟨content, version, true⟩).saveFile fileId content with
      | error e => exact steady_setBuffer present
      | ok saved' => exact (steady_setBuffer present).trans (steady_saveFile saved)
    · exact steady_setBuffer present

theorem steady_handleResolveConflict {version : ℕ} :
    Steady s (s.handleResolveConflict path version content request).2 := by
  unfold handleResolveConflict
  cases s.buffers.fileIdForPath path with
  | none => exact .refl s
  | some fileId =>
    have steady : Steady s (s.resolveConflict fileId version content).1 := steady_resolveConflict
    dsimp only
    match resolved : s.resolveConflict fileId version content with
    | (after, .ok _) =>
      rw [resolved] at steady
      exact steady.trans steady_insertPending
    | (after, .error e) =>
      rw [resolved] at steady
      exact steady

theorem steady_setText {text : Str} : Steady s (s.setText fileId text) := by
  unfold setText buffer?
  split_ifs
  · cases found : s.globalBuffers.buffers.get? fileId with
    | none => exact .refl s
    | some buffer => exact steady_setBuffer (by rw [found]; rfl)
  · exact .refl s

theorem Coherent.steady_loadFinished (coherent : w.Coherent) :
    Steady w.server (w.server.loadFinished fileId result).2 := by
  unfold loadFinished
  split_ifs with loading
  · have taken : Steady w.server
        { w.server with fileModel := { w.server.fileModel with loads := w.server.fileModel.loads.remove fileId } } :=
      ⟨rfl, rfl, rfl, fun _ => .rfl, rfl, rfl, fun other member => (HashSet.mem_remove.mp member).1, rfl⟩
    cases result with
    | error e => exact taken.trans steady_handleEvent
    | ok content =>
      have present := coherent.loads fileId loading
      obtain ⟨buffer, found⟩ := Option.isSome_iff_exists.mp present
      dsimp only
      rw [found]
      dsimp only
      rw [if_pos (show fileId ∈ w.server.buffers.bufferHandles from (coherent.alive fileId).mpr present)]
      refine (taken.trans ?_).trans steady_handleEvent
      exact steady_setBuffer present
  · exact .refl _

theorem isSome_of_buffer? {buffer : ServerBuffer} (found : s.buffer? fileId = some buffer) :
    (s.globalBuffers.buffers.get? fileId).isSome := by
  unfold buffer? at found
  split_ifs at found
  rw [found]
  rfl

theorem steady_reloadFinished {task : ℕ} : Steady s (s.reloadFinished task result).2 := by
  unfold reloadFinished
  cases s.globalBuffers.reloads.find? (·.task = task) with
  | none => exact .refl s
  | some reload =>
    have taken : Steady s { s with
        globalBuffers := { s.globalBuffers with reloads := s.globalBuffers.reloads.filter (·.task ≠ task) } } :=
      ⟨rfl, rfl, rfl, fun _ => .rfl, rfl, rfl, fun _ => id, rfl⟩
    cases result with
    | error e => exact taken.trans steady_handleEvent
    | ok content =>
      dsimp only
      split
      · exact taken.trans steady_handleEvent
      · rename_i buffer found
        have numbered : Steady s { s with
            globalBuffers := { s.globalBuffers with reloads := s.globalBuffers.reloads.filter (·.task ≠ task) }
            nextVersion := s.nextVersion + 1 } := ⟨rfl, rfl, rfl, fun _ => .rfl, rfl, rfl, fun _ => id, rfl⟩
        refine (numbered.trans ?_).trans steady_handleEvent
        exact steady_setBuffer (isSome_of_buffer? found)

theorem steady_writeFinished {task : ℕ} {result : Except Str Unit} : Steady s (s.writeFinished task result).2 := by
  unfold writeFinished
  cases s.fileModel.writes.find? (·.task = task) with
  | none => exact .refl s
  | some write =>
    have taken : Steady s { s with fileModel := { s.fileModel with writes := s.fileModel.writes.filter (·.task ≠ task) } } :=
      ⟨rfl, rfl, rfl, fun _ => .rfl, rfl, rfl, fun _ => id, rfl⟩
    cases result with
    | error e => exact taken.trans steady_handleEvent
    | ok _ => exact taken.trans steady_handleEvent

theorem Coherent.step (coherent : w.Coherent) {action : Action} (proper : w.Proper action) : (w.step action).Coherent := by
  cases action with
  | openBuffer connId requestId path forceReload => exact coherent.openBuffer
  | saveBuffer connId requestId path => exact coherent.steady steady_handleSaveBuffer rfl rfl
  | resolveConflict connId requestId path version content => exact coherent.steady steady_handleResolveConflict rfl rfl
  | closeBuffer connId path => exact coherent.closeBuffer proper
  | disconnect connId => exact coherent.disconnect
  | setText fileId text => exact coherent.steady steady_setText rfl rfl
  | loadFinished fileId result => exact coherent.steady coherent.steady_loadFinished rfl rfl
  | reloadFinished task result => exact coherent.steady steady_reloadFinished rfl rfl
  | writeFinished task result => exact coherent.steady steady_writeFinished rfl rfl

end World

end BufferServer

end Warp.Remote
