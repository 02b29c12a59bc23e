import Warp.Remote.BufferSession

namespace Warp.Remote.BufferSync

open CodeReview (ConnectionId)

structure Replica where
  text : Str
  clock : SyncClock
  deriving DecidableEq

namespace Replica

def edited (self : Replica) (edit : ℕ × List CharOffsetEdit) : Replica :=
  ⟨applySequentially edit.2 self.text, { self.clock with clientVersion := edit.1 }⟩

def pushed (self : Replica) (push : ℕ × List CharOffsetEdit) : Replica :=
  ⟨applyAtOnce push.2 self.text, { self.clock with serverVersion := push.1 }⟩

end Replica

def ServerLocal.replica (self : ServerLocal) : Replica := ⟨self.buffer.text, self.syncClock⟩

def ServerMessage.Plain : ServerMessage → Prop
  | .openBufferResponse _ _ => False
  | .bufferUpdatedPush _ _ _ => False
  | _ => True

namespace Daemon

variable {d d' d'' : Daemon} {out more : Dispatch} {connId : ConnectionId} {requestId : ℕ} {edits : List CharOffsetEdit}
  {textDiff : Str → Str → List CharOffsetEdit}

def replica? (self : Daemon) : Option Replica := self.state.map ServerLocal.replica

/-- The text, the clock and what waits for the buffer to open stay as they are. -/
structure Still (d : Daemon) (out : Dispatch) (d' : Daemon) : Prop where
  replica : d'.replica? = d.replica?
  connections : d'.connections = d.connections
  opens : d'.ofKind .openBuffer = d.ofKind .openBuffer
  reloads : d'.reloads = d.reloads
  loading : d'.loading = d.loading
  nextVersion : d.nextVersion ≤ d'.nextVersion
  plain : ∀ entry ∈ out, entry.2.Plain

theorem Still.refl (d : Daemon) : Still d [] d := ⟨rfl, rfl, rfl, rfl, rfl, Nat.le_refl _, fun _ => (nomatch ·)⟩

theorem Still.trans (first : Still d out d') (later : Still d' more d'') : Still d (out ++ more) d'' where
  replica := later.replica.trans first.replica
  connections := later.connections.trans first.connections
  opens := later.opens.trans first.opens
  reloads := later.reloads.trans first.reloads
  loading := later.loading.trans first.loading
  nextVersion := first.nextVersion.trans later.nextVersion
  plain entry member := (List.mem_append.mp member).elim (first.plain entry) (later.plain entry)

theorem ofKind_filter {kind other : PendingBufferRequestKind} (apart : kind ≠ other) :
    (d.pending.filter (·.kind ≠ other)).filter (·.kind = kind) = d.ofKind kind := by
  rw [List.filter_filter]
  refine List.filter_congr fun request _ => ?_
  by_cases same : request.kind = kind
  · simp [same, apart]
  · simp [same]

theorem still_takePendingByKind {kind : PendingBufferRequestKind} (closes : kind ≠ .openBuffer) {message : ℕ → ServerMessage}
    (plain : ∀ requestId, (message requestId).Plain) :
    Still d (d.takePendingByKind kind message).1 (d.takePendingByKind kind message).2 where
  replica := rfl
  connections := rfl
  opens := ofKind_filter closes.symm
  reloads := rfl
  loading := rfl
  nextVersion := Nat.le_refl _
  plain entry member := by
    obtain ⟨request, -, rfl⟩ := List.mem_map.mp member
    exact plain request.requestId

variable {result : Except Str Unit} {task : ℕ} {replica : Replica}

theorem still_takeSaves : Still d (d.takeSaves result).1 (d.takeSaves result).2 := by
  have saves : Still d (d.takePendingByKind .saveBuffer (.saveBufferResponse · result)).1 _ :=
    still_takePendingByKind (by simp) fun _ => trivial
  exact saves.trans (@still_takePendingByKind _ .resolveConflict (by simp) (.resolveConflictResponse · result) fun _ => trivial)

theorem still_conflict : Still d (d.handleEvent (.bufferUpdatedFromFileEvent false)).1
    (d.handleEvent (.bufferUpdatedFromFileEvent false)).2 := by
  refine { Still.refl d with plain := fun entry member => ?_ }
  obtain ⟨connId, -, rfl⟩ := List.mem_map.mp member
  exact trivial

theorem still_writeFinished :
    Still d (d.writeFinished task result).1 (d.writeFinished task result).2 := by
  unfold writeFinished
  cases d.writes.find? (·.task = task) with
  | none => exact .refl d
  | some write =>
    cases result with
    | error e =>
      have taken : Still d [] { d with writes := d.writes.filter (·.task ≠ task) } := { Still.refl d with }
      exact taken.trans still_takeSaves
    | ok _ =>
      have taken : Still d [] { d with
          writes := d.writes.filter (·.task ≠ task)
          fileVersion := some write.version
          state := d.state.map fun state => { state with baseContentVersion := some write.version } } := by
        refine { Still.refl d with replica := ?_ }
        unfold replica?
        rw [Option.map_map]
        rfl
      exact taken.trans still_takeSaves

theorem still_fileUpdated {content : Str} :
    Still d (d.fileUpdated textDiff content).1 (d.fileUpdated textDiff content).2 := by
  unfold fileUpdated
  cases d.fileVersion with
  | none => exact .refl d
  | some baseVersion =>
    have numbered : Still d [] { d with nextVersion := d.nextVersion + 1, fileVersion := some d.nextVersion } :=
      { Still.refl d with nextVersion := Nat.le_succ _ }
    cases found : d.state with
    | none =>
      rw [found] at numbered
      exact numbered
    | some state =>
      have kept : ∀ base diff, Still d []
          ({ d with nextVersion := d.nextVersion + 1, fileVersion := some d.nextVersion }.withState
            { state with baseContentVersion := base, pendingDiffParse := diff }) := by
        intro base diff
        refine { numbered with replica := ?_ }
        unfold replica? withState
        rw [found]
        rfl
      dsimp only
      cases state.baseContentVersion with
      | none =>
        rw [found] at numbered
        exact numbered
      | some internalBaseVersion =>
        dsimp only
        rw [← found]
        split_ifs
        · exact kept state.baseContentVersion _
        · exact kept state.baseContentVersion _
        · exact (kept (some internalBaseVersion) none).trans still_conflict

/-- The text changes with the file, and the connections that do not wait for the buffer to open learn of it. -/
structure Bumps (d : Daemon) (edits : List CharOffsetEdit) (d' : Daemon) : Prop where
  replica : ∃ replica, d.replica? = some replica ∧ d'.replica? = some (replica.pushed (d.nextVersion, edits))
  connections : d'.connections = d.connections
  opens : d'.ofKind .openBuffer = d.ofKind .openBuffer
  reloads : d'.reloads = d.reloads
  loading : d'.loading = d.loading
  nextVersion : d'.nextVersion = d.nextVersion + 1

def pushes (self : Daemon) (newServerVersion expectedClientVersion : ℕ) (edits : List CharOffsetEdit) : Dispatch :=
  (self.connections.filter (· ∉ self.pendingConnectionsForOpenBuffer)).map
    (·, .bufferUpdatedPush newServerVersion expectedClientVersion edits)

theorem applyDiffResult_cases : Still d d.applyDiffResult.1 d.applyDiffResult.2 ∨ ∃ state edits, d.state = some state ∧
    Bumps d edits d.applyDiffResult.2 ∧ d.applyDiffResult.1 = d.pushes d.nextVersion state.syncClock.clientVersion edits := by
  unfold applyDiffResult
  cases found : d.state with
  | none => exact .inl (.refl d)
  | some state =>
    dsimp only
    cases state.pendingDiffParse with
    | none => exact .inl (.refl d)
    | some diff =>
      have kept : ∀ buffer base, buffer.text = state.buffer.text →
          Still d [] (d.withState { state with pendingDiffParse := none, buffer := buffer, baseContentVersion := base }) := by
        intro buffer base same
        refine { Still.refl d with replica := ?_ }
        unfold replica? withState
        rw [found, Option.map_some, Option.map_some, ServerLocal.replica, ServerLocal.replica, same]
      dsimp only
      split_ifs with matched empty
      · refine .inl (kept ⟨applyAtOnce diff.edits state.buffer.text, diff.newVersion⟩ (some diff.newVersion) ?_)
        rw [empty]
        rfl
      · refine .inr ⟨state, diff.edits, rfl, ⟨⟨state.replica, ?_, rfl⟩, rfl, rfl, rfl, rfl, rfl⟩, rfl⟩
        unfold replica?
        rw [found]
        rfl
      · exact .inl ((kept state.buffer state.baseContentVersion rfl).trans still_conflict)

theorem applyClientEdit_stale (known : d.replica? = some replica) {expectedServerVersion newClientVersion : ℕ}
    (stale : replica.clock.serverVersion ≠ expectedServerVersion) :
    d.applyClientEdit expectedServerVersion newClientVersion edits = (d, false) := by
  obtain ⟨state, found, rfl⟩ := Option.map_eq_some_iff.mp known
  unfold applyClientEdit
  rw [found]
  dsimp only
  rw [if_neg (by simpa [SyncClock.clientEditMatches, ServerLocal.replica] using stale)]

theorem applyClientEdit_current {replica : Replica} (known : d.replica? = some replica) {newClientVersion : ℕ} :
    (d.applyClientEdit replica.clock.serverVersion newClientVersion edits).2 = true ∧
      (d.applyClientEdit replica.clock.serverVersion newClientVersion edits).1.replica? =
        some (replica.edited (newClientVersion, edits)) := by
  obtain ⟨state, found, rfl⟩ := Option.map_eq_some_iff.mp known
  unfold applyClientEdit
  rw [found]
  dsimp only
  rw [if_pos (by simp [SyncClock.clientEditMatches, ServerLocal.replica])]
  exact ⟨rfl, rfl⟩

structure Edits (d d' : Daemon) : Prop where
  connections : d'.connections = d.connections
  opens : d'.ofKind .openBuffer = d.ofKind .openBuffer
  reloads : d'.reloads = d.reloads
  loading : d'.loading = d.loading
  nextVersion : d.nextVersion ≤ d'.nextVersion

theorem edits_applyClientEdit {expectedServerVersion newClientVersion : ℕ} :
    Edits d (d.applyClientEdit expectedServerVersion newClientVersion edits).1 := by
  have unchanged : Edits d d := ⟨rfl, rfl, rfl, rfl, Nat.le_refl _⟩
  unfold applyClientEdit
  cases d.state with
  | none => exact unchanged
  | some state =>
    dsimp only
    split_ifs
    · exact ⟨rfl, rfl, rfl, rfl, Nat.le_succ_of_le (Nat.le_add_right _ _)⟩
    · exact unchanged

theorem still_handleSaveBuffer : Still d (d.handleSaveBuffer connId requestId).1 (d.handleSaveBuffer connId requestId).2 := by
  unfold handleSaveBuffer
  cases found : d.state with
  | none =>
    refine { Still.refl d with plain := fun entry member => ?_ }
    rw [List.mem_singleton.mp member]
    exact trivial
  | some state =>
    refine { Still.refl d with opens := ?_ }
    show ((d.pending ++ [_]).filter _) = _
    rw [List.filter_append, List.filter_cons_of_neg (by simp)]
    exact List.append_nil _

structure Asks (d : Daemon) (connId : ConnectionId) (requestId : ℕ) (d' : Daemon) : Prop where
  connections : d'.connections = d.connections.insert connId
  opens : d'.ofKind .openBuffer = d.ofKind .openBuffer ++ [⟨requestId, connId, .openBuffer⟩]
  nextVersion : d.nextVersion ≤ d'.nextVersion

theorem ofKind_insertPending : (d.insertPending requestId connId .openBuffer).ofKind .openBuffer =
    d.ofKind .openBuffer ++ [⟨requestId, connId, .openBuffer⟩] := by
  show (d.pending ++ [_]).filter _ = _
  rw [List.filter_append, List.filter_cons_of_pos (by simp)]
  rfl

/-- A buffer that is opened is read again, created, reported as it is, or waited for. -/
inductive Opens (d : Daemon) (connId : ConnectionId) (requestId : ℕ) (forceReload : Bool) : Dispatch × Daemon → Prop
  | reads (d' : Daemon) (reload : Reload) (replica : Replica) (asks : Asks d connId requestId d')
      (known : d.replica? = some replica) (kept : d'.replica? = some replica)
      (reloads : d'.reloads = d.reloads ++ [reload]) (captured : reload.expectedClientVersion = replica.clock.clientVersion)
      (loading : d'.loading = d.loading) : Opens d connId requestId forceReload ([], d')
  | creates (d' : Daemon) (asks : Asks d connId requestId d') (missing : d.replica? = none)
      (created : d'.replica? = some ⟨[], .new⟩) (reloads : d'.reloads = d.reloads) (loading : d'.loading = true) :
      Opens d connId requestId forceReload ([], d')
  | waits (d' : Daemon) (replica : Replica) (asks : Asks d connId requestId d') (unforced : forceReload = false)
      (known : d.replica? = some replica) (kept : d'.replica? = some replica) (reloads : d'.reloads = d.reloads)
      (loading : d'.loading = d.loading) : Opens d connId requestId forceReload ([], d')
  | answers (d' : Daemon) (replica : Replica) (unforced : forceReload = false) (loaded : d.loaded = true)
      (connections : d'.connections = d.connections.insert connId) (opens : d'.ofKind .openBuffer = d.ofKind .openBuffer)
      (known : d.replica? = some replica) (kept : d'.replica? = some replica) (reloads : d'.reloads = d.reloads)
      (loading : d'.loading = d.loading) (nextVersion : d.nextVersion ≤ d'.nextVersion) :
      Opens d connId requestId forceReload
        ([(connId, .openBufferResponse requestId (.ok ⟨replica.text, replica.clock.serverVersion⟩))], d')

theorem handleOpenBuffer_opens {forceReload : Bool} (idle : d.ofKind .openBuffer = []) :
    Opens d connId requestId forceReload (d.handleOpenBuffer connId requestId forceReload) := by
  have asks : ∀ {d' : Daemon}, d.connections = d'.connections → d.pending = d'.pending → d.nextVersion ≤ d'.nextVersion →
      Asks d connId requestId ((d'.addConnection connId).insertPending requestId connId .openBuffer) := by
    intro d' connections pending nextVersion
    refine ⟨by rw [connections]; rfl, ?_, nextVersion⟩
    rw [ofKind_insertPending]
    unfold ofKind
    rw [pending]
    rfl
  unfold handleOpenBuffer
  cases found : d.state with
  | none =>
    have missing : d.replica? = none := by
      unfold replica?
      rw [found]
      rfl
    rw [ite_self]
    unfold openServerLocal
    rw [found]
    dsimp only
    rw [if_neg (by simp [loaded, addConnection])]
    exact .creates _ (@asks { d with
      state := some ⟨⟨[], d.nextVersion⟩, none, none, .new⟩, fileVersion := none, loading := true, nextVersion := d.nextVersion + 1 }
      rfl rfl (Nat.le_succ _)) missing rfl rfl rfl
  | some state =>
    have known : d.replica? = some state.replica := by
      unfold replica?
      rw [found]
      rfl
    cases forceReload with
    | true =>
      have waits := @asks d rfl rfl (Nat.le_refl _)
      exact .reads _ _ state.replica ⟨waits.connections, waits.opens, waits.nextVersion⟩ known known rfl rfl rfl
    | false =>
      rw [if_neg Bool.false_ne_true]
      unfold openServerLocal
      rw [found]
      dsimp only
      by_cases isLoaded : d.loaded = true
      · rw [if_pos (show (d.addConnection connId).loaded = true from isLoaded), if_pos isLoaded]
        have success : (d.addConnection connId).openSuccess = .ok ⟨state.replica.text, state.replica.clock.serverVersion⟩ := by
          unfold openSuccess addConnection
          rw [found]
          rfl
        have nobody : ((d.addConnection connId).handleEvents [.bufferLoaded]).1 = [] := by
          show (d.ofKind .openBuffer).map _ = []
          rw [idle]
          rfl
        rw [success, nobody]
        refine .answers _ state.replica rfl isLoaded rfl ?_ known known rfl rfl (Nat.le_refl _)
        rw [idle]
        show (d.pending.filter _).filter _ = []
        rw [List.filter_filter]
        apply List.filter_eq_nil_iff.mpr
        simp
      · rw [if_neg (show ¬ (d.addConnection connId).loaded = true from isLoaded), if_neg isLoaded]
        exact .waits _ state.replica (asks rfl rfl (Nat.le_refl _)) rfl known known rfl rfl

structure Answers (d : Daemon) (result : Except Str OpenBufferSuccess) (out : Dispatch) (d' : Daemon) : Prop where
  out : out = (d.ofKind .openBuffer).map fun request => (request.connectionId, .openBufferResponse request.requestId result)
  connections : d'.connections = d.connections
  opens : d'.ofKind .openBuffer = []
  nextVersion : d.nextVersion ≤ d'.nextVersion

theorem answers_takePendingByKind {result : Except Str OpenBufferSuccess} (connections : d'.connections = d.connections)
    (pending : d'.pending = d.pending) (nextVersion : d.nextVersion ≤ d'.nextVersion) :
    Answers d result (d'.takePendingByKind .openBuffer (.openBufferResponse · result)).1
      (d'.takePendingByKind .openBuffer (.openBufferResponse · result)).2 where
  out := by
    unfold ofKind
    rw [← pending]
    rfl
  connections := connections
  opens := by
    show (d'.pending.filter _).filter _ = []
    rw [List.filter_filter]
    apply List.filter_eq_nil_iff.mpr
    simp
  nextVersion := nextVersion

theorem loadFinished_answers (loading : d.loading = true) (known : d.replica? = some replica) (result : Except Str Str) :
    ∃ answer, Answers d answer (d.loadFinished result).1 (d.loadFinished result).2 ∧
      (d.loadFinished result).2.loading = false ∧ (d.loadFinished result).2.reloads = d.reloads ∧
      ((∃ e, answer = .error e) ∧ (d.loadFinished result).2.replica? = some replica ∨
        ∃ content, answer = .ok ⟨content, replica.clock.serverVersion⟩ ∧
          (d.loadFinished result).2.replica? = some ⟨content, replica.clock⟩) := by
  obtain ⟨state, found, rfl⟩ := Option.map_eq_some_iff.mp known
  unfold loadFinished
  rw [if_pos loading]
  cases result with
  | error e =>
    refine ⟨_, answers_takePendingByKind rfl rfl (Nat.le_refl _), rfl, rfl, .inl ⟨⟨_, rfl⟩, known⟩⟩
  | ok content =>
    dsimp only
    rw [found]
    exact ⟨_, answers_takePendingByKind rfl rfl (Nat.le_succ _), rfl, rfl, .inr ⟨content, rfl, rfl⟩⟩

theorem reloadFinished_answers {reload : Reload} (running : d.reloads.find? (·.task = task) = some reload)
    (known : d.replica? = some replica) (served : ∀ connId ∈ d.connections, connId ∈ d.pendingConnectionsForOpenBuffer)
    (result : Except Str Str) :
    ∃ answer, Answers d answer (d.reloadFinished task result).1 (d.reloadFinished task result).2 ∧
      (d.reloadFinished task result).2.loading = d.loading ∧
      (d.reloadFinished task result).2.reloads = d.reloads.filter (·.task ≠ task) ∧
      ((∃ e, answer = .error e) ∧ (d.reloadFinished task result).2.replica? = some replica ∨
        ∃ content, answer = .ok ⟨content, d.nextVersion + 1⟩ ∧
          (d.reloadFinished task result).2.replica? = some ⟨content, ⟨d.nextVersion + 1, 0⟩⟩ ∧
          d.nextVersion + 2 ≤ (d.reloadFinished task result).2.nextVersion) := by
  obtain ⟨state, found, rfl⟩ := Option.map_eq_some_iff.mp known
  unfold reloadFinished
  rw [running]
  cases result with
  | error e =>
    exact ⟨_, answers_takePendingByKind rfl rfl (Nat.le_refl _), rfl, rfl, .inl ⟨⟨_, rfl⟩, known⟩⟩
  | ok content =>
    dsimp only
    rw [found]
    dsimp only
    have nobody : d.connections.filter (· ∉ d.pendingConnectionsForOpenBuffer) = [] := by
      apply List.filter_eq_nil_iff.mpr
      simpa using served
    refine ⟨.ok ⟨content, d.nextVersion + 1⟩, ?_, rfl, rfl, .inr ⟨content, rfl, rfl, Nat.le_refl _⟩⟩
    have answered := @answers_takePendingByKind d ({ d with
        reloads := d.reloads.filter (·.task ≠ task), nextVersion := d.nextVersion + 2
        fileVersion := some d.nextVersion }.withState { state with
          buffer := ⟨content, d.nextVersion⟩, baseContentVersion := some d.nextVersion
          syncClock := ⟨d.nextVersion + 1, 0⟩ }) (.ok ⟨content, d.nextVersion + 1⟩) rfl rfl (Nat.le_add_right _ _)
    refine { answered with out := ?_ }
    show (d.connections.filter (· ∉ d.pendingConnectionsForOpenBuffer)).map _ ++ _ = _
    rw [nobody]
    exact answered.out

theorem loadFinished_idle (idle : d.loading = false) {result : Except Str Str} : d.loadFinished result = ([], d) := by
  unfold loadFinished
  rw [if_neg (by simp [idle])]

theorem reloadFinished_idle (missing : d.reloads.find? (·.task = task) = none) {result : Except Str Str} :
    d.reloadFinished task result = ([], d) := by
  unfold reloadFinished
  rw [missing]

end Daemon

end Warp.Remote.BufferSync
