import Warp.CodeReview.DiffStateRun

namespace Warp.CodeReview

open List

open Remote (RequestId)

variable {δ μ φ : Type}

/-- A model that looks for its repository has no state yet, and one that loads has its repository. -/
structure LocalDiffStateModel.Sound (model : LocalDiffStateModel δ μ) : Prop where
  detecting : model.detecting → model.state = .notInRepository ∧ model.repository = false
  loading : model.get = .loading → model.repository

theorem LocalDiffStateModel.new_sound (id : ℕ) : (LocalDiffStateModel.new id : LocalDiffStateModel δ μ).Sound :=
  ⟨fun _ => ⟨rfl, rfl⟩, fun loading => nomatch loading⟩

def LocalDiffStateModel.Unsettled (model : LocalDiffStateModel δ μ) : Prop := model.detecting ∨ model.get = .loading

namespace World

variable {w w' : World δ μ} {key other : DiffModelKey} {model : LocalDiffStateModel δ μ} {reload : Reload} {diffs : Option δ}
  {connId : ConnectionId} {requestId : RequestId}

def book (w : World δ μ) : RequestBook DiffModelKey PendingDiffStateResponse where
  asked := w.requests.map fun r => (r.key, r.response)
  withdrawn := w.withdrawn
  answered := w.answers.map Answer.response
  waiting := w.waiting

theorem book_responses (w : World δ μ) : w.book.asked.map Prod.snd = w.requests.map Request.response := by
  unfold book
  rw [List.map_map]
  rfl

structure Accounted (w : World δ μ) : Prop where
  coherent : w.manager.Coherent
  ids : (w.requests.map fun r => r.response.requestId).Nodup
  book : w.book.Balanced
  busy : ∀ key, w.waiting key ≠ [] → w.Busy key
  models : ∀ key model, w.manager.getModel key = some model → model.Sound

theorem new_accounted : (new : World δ μ).Accounted where
  coherent := RemoteDiffStateManager.new_coherent
  ids := nodup_nil
  book := RequestBook.empty_balanced
  busy _ waits := absurd rfl waits
  models _ _ found := by cases found

def drained (w : World δ μ) (key : DiffModelKey) (model : LocalDiffStateModel δ μ) (diffs : Option δ) (reload : Option Reload) :
    List (Answer δ μ) :=
  (w.waiting key).map fun p => ⟨p, model.get, model.metadata, diffs, model.id, reload⟩

theorem answers_snapshot (model : ℕ) (reload : Option Reload) (state : DiffState) (metadata : Option μ) (diffs : Option δ)
    (pending : List PendingDiffStateResponse) (pushes : List ConnectionId) :
    (DiffStateUpdate.snapshot key state metadata diffs
      (pending.map (fun p => (p.connId, some p.requestId)) ++ pushes.map (·, none)) : DiffStateUpdate δ μ φ).answers model
        reload = pending.map fun p => ⟨p, state, metadata, diffs, model, reload⟩ := by
  unfold DiffStateUpdate.answers
  dsimp only
  have silent : (pushes.map (·, (none : Option RequestId))).filterMap (fun subscriber =>
      subscriber.2.map fun requestId => (⟨⟨requestId, subscriber.1⟩, state, metadata, diffs, model, reload⟩ : Answer δ μ)) = [] := by
    rw [filterMap_map, filterMap_eq_nil_iff]
    simp
  rw [filterMap_append, silent, append_nil, filterMap_map]
  exact congrFun filterMap_eq_map' pending

theorem getModel_insertModel (m : RemoteDiffStateManager δ μ) (key other : DiffModelKey) (model : LocalDiffStateModel δ μ) :
    (m.insertModel key model).getModel other = if other = key then some model else m.getModel other :=
  HashMap.get?_insert _ _ _ _

section

variable (found : w.manager.getModel key = some model)
include found

theorem modelStep_none (change : LocalDiffStateModel δ μ → LocalDiffStateModel δ μ) :
    w.modelStep key model change (none : Option (DiffStateModelEvent δ μ φ)) =
      w.withManager (w.manager.insertModel key (change model)) := by
  unfold modelStep Daemon.modelStep
  rw [show w.daemon.diffStates.getModel key = some model from found]
  simp [withManager, manager]

theorem modelStep_push (change : LocalDiffStateModel δ μ → LocalDiffStateModel δ μ) (event : DiffStateModelEvent δ μ φ)
    (pushes : ∀ diffs, event ≠ .newDiffsComputed diffs) :
    w.modelStep key model change (some event) = w.withManager (w.manager.insertModel key (change model)) := by
  unfold modelStep Daemon.modelStep
  rw [show w.daemon.diffStates.getModel key = some model from found]
  cases event with
  | newDiffsComputed diffs => exact absurd rfl (pushes diffs)
  | metadataRefreshed metadata => simp [withManager, manager, RemoteDiffStateManager.handleModelEvent, DiffStateUpdate.answers]
  | singleFileUpdated path diff =>
    simp [withManager, manager, RemoteDiffStateManager.handleModelEvent, DiffStateUpdate.answers]
  | currentBranchChanged =>
    dsimp only
    unfold RemoteDiffStateManager.handleModelEvent
    dsimp only
    split <;> simp [withManager, manager, DiffStateUpdate.answers]

theorem modelStep_newDiffs (change : LocalDiffStateModel δ μ → LocalDiffStateModel δ μ)
    (same : (change model).id = model.id) (diffs : Option δ) :
    w.modelStep key model change (some (.newDiffsComputed diffs) : Option (DiffStateModelEvent δ μ φ)) =
      { w.withManager ((w.manager.insertModel key (change model)).drainPendingResponses key).2 with
        answers := w.answers ++ w.drained key (change model) diffs none } := by
  have now : (w.manager.insertModel key (change model)).readStateAndMetadata key =
      some ((change model).get, (change model).metadata) := by
    show ((w.manager.insertModel key (change model)).getModel key).map _ = _
    rw [getModel_insertModel, if_pos rfl]
    rfl
  unfold modelStep Daemon.modelStep
  rw [show w.daemon.diffStates.getModel key = some model from found]
  dsimp only
  unfold RemoteDiffStateManager.handleModelEvent
  dsimp only
  rw [show w.daemon.diffStates = w.manager from rfl, now]
  dsimp only
  rw [flatMap_cons, flatMap_nil, append_nil]
  unfold RemoteDiffStateManager.subscribersOf
  rw [answers_snapshot, drained, same]
  rfl

end

def settled (w : World δ μ) (reload : Reload) : RemoteDiffStateManager δ μ :=
  { w.manager with inProgress := w.manager.inProgress.remove reload.requestId }

theorem reloadEnded_absent (absent : w.manager.getModel reload.key = none) :
    @World.reloadEnded δ μ φ w reload diffs =
      { w with
        daemon := { w.daemon with diffStates := w.settled reload, reloads := w.daemon.reloads.filter (·.future ≠ reload.future) }
        produced := w.produced ++ if diffs.isSome then [.reload reload.future] else [] } := by
  have now : (w.settled reload).readStateAndMetadata reload.key = none := by
    show (w.manager.getModel reload.key).map _ = none
    rw [absent]
    rfl
  unfold reloadEnded Daemon.reloadEnded
  dsimp only
  unfold RemoteDiffStateManager.resolvePendingResponses
  rw [show ({ w.daemon.diffStates with inProgress := w.daemon.diffStates.inProgress.remove reload.requestId } :
    RemoteDiffStateManager δ μ) = w.settled reload from rfl, now]
  dsimp only
  rw [flatMap_nil, append_nil]

theorem reloadEnded_present (found : w.manager.getModel reload.key = some model) :
    @World.reloadEnded δ μ φ w reload diffs =
      { w with
        daemon :=
          { w.daemon with
            diffStates := ((w.settled reload).drainPendingResponses reload.key).2
            reloads := w.daemon.reloads.filter (·.future ≠ reload.future) }
        answers := w.answers ++ w.drained reload.key model diffs (some reload)
        produced := w.produced ++ if diffs.isSome then [.reload reload.future] else [] } := by
  have now : (w.settled reload).readStateAndMetadata reload.key = some (model.get, model.metadata) := by
    show (w.manager.getModel reload.key).map _ = _
    rw [found]
    rfl
  unfold reloadEnded Daemon.reloadEnded
  dsimp only
  unfold RemoteDiffStateManager.resolvePendingResponses
  rw [show ({ w.daemon.diffStates with inProgress := w.daemon.diffStates.inProgress.remove reload.requestId } :
    RemoteDiffStateManager δ μ) = w.settled reload from rfl, now, found]
  dsimp only
  rw [flatMap_cons, flatMap_nil, append_nil,
    ← append_nil ((RemoteDiffStateManager.drainPendingResponses (w.settled reload) reload.key).1.map _),
    show ([] : List (ConnectionId × Option RequestId)) = ([] : List ConnectionId).map (·, none) from rfl, answers_snapshot]
  rfl

section Accounts

theorem Busy.of_model (busy : w.Busy key) (reloads : ∀ reload ∈ w.daemon.reloads, ∃ reload' ∈ w'.daemon.reloads, reload'.key = reload.key)
    (models : ∀ model, w.manager.getModel key = some model → model.Unsettled →
      ∃ model', w'.manager.getModel key = some model' ∧ model'.Unsettled) : w'.Busy key := by
  rcases busy with ⟨reload, running, isKey⟩ | ⟨model, found, unsettled⟩
  · obtain ⟨reload', running', same⟩ := reloads reload running
    exact .inl ⟨reload', running', same.trans isKey⟩
  · exact .inr (models model found unsettled)

variable {m : RemoteDiffStateManager δ μ} {next : LocalDiffStateModel δ μ}

theorem Accounted.narrow (accounted : w.Accounted) {dropped : DiffModelKey → PendingDiffStateResponse → Prop}
    {given : Request → Bool} (coherent : m.Coherent) (narrowed : RemoteDiffStateManager.Narrowed dropped w.manager m)
    (covered : ∀ r ∈ w.requests, r.response ∈ w.waiting r.key → dropped r.key r.response → given r) :
    ((w.withdraw given).withManager m).Accounted where
  coherent := coherent
  ids := accounted.ids
  book := by
    refine accounted.book.withdraw (fun p member => mem_append_left _ member) narrowed.waiting ?_
    intro other p waits notGiven
    apply narrowed.kept other p waits
    intro isDropped
    obtain ⟨r, isAsked, same⟩ := List.mem_map.mp (accounted.book.waitingAsked other p waits)
    cases same
    exact notGiven (mem_append_right _ (List.mem_map.mpr
      ⟨r, List.mem_filter.mpr ⟨isAsked, covered r isAsked waits isDropped⟩, rfl⟩))
  busy key waits := by
    have waited : w.waiting key ≠ [] := by
      intro nothing
      apply waits
      have narrow : (m.waiting key).Sublist (w.waiting key) := narrowed.waiting key
      rw [nothing] at narrow
      exact List.sublist_nil.mp narrow
    obtain ⟨model, found⟩ := coherent.model_of_waiting waits
    refine (accounted.busy key waited).of_model (fun reload running => ⟨reload, running, rfl⟩) fun old isOld unsettled => ?_
    have same := (narrowed.models key model found).symm.trans isOld
    cases same
    exact ⟨model, found, unsettled⟩
  models key model found := accounted.models key model (narrowed.models key model found)

theorem Accounted.drain (accounted : w.Accounted) (coherent : w'.manager.Coherent) (requests : w'.requests = w.requests)
    (withdrawn : w'.withdrawn = w.withdrawn) (here : w'.waiting key = [])
    (others : ∀ other ≠ key, w'.waiting other = w.waiting other)
    (answers : w'.answers.map Answer.response = w.answers.map Answer.response ++ w.waiting key)
    (busy : ∀ other ≠ key, w.Busy other → w'.Busy other)
    (models : ∀ key model, w'.manager.getModel key = some model → model.Sound) : w'.Accounted where
  coherent := coherent
  ids := by
    rw [requests]
    exact accounted.ids
  book := by
    have drained := accounted.book.drain here others
    unfold World.book
    rw [requests, withdrawn, answers]
    exact drained
  busy other waits := by
    have apart : other ≠ key := by
      rintro rfl
      exact waits here
    rw [others other apart] at waits
    exact busy other apart (accounted.busy other waits)
  models := models

theorem Accounted.keep (accounted : w.Accounted) (coherent : w'.manager.Coherent) (requests : w'.requests = w.requests)
    (withdrawn : w'.withdrawn = w.withdrawn) (waiting : ∀ other, w'.waiting other = w.waiting other)
    (answers : w'.answers.map Answer.response = w.answers.map Answer.response)
    (busy : ∀ other, w.waiting other ≠ [] → w.Busy other → w'.Busy other)
    (models : ∀ key model, w'.manager.getModel key = some model → model.Sound) : w'.Accounted where
  coherent := coherent
  ids := by
    rw [requests]
    exact accounted.ids
  book := by
    have same : w'.book = w.book := by
      unfold World.book
      rw [requests, withdrawn, answers, show w'.waiting = w.waiting from funext waiting]
    rw [same]
    exact accounted.book
  busy other waits := by
    rw [waiting] at waits
    exact busy other waits (accounted.busy other waits)
  models := models

theorem insertModel_coherent (coherent : m.Coherent) (found : (m.getModel key).isSome)
    (model : LocalDiffStateModel δ μ) : (m.insertModel key model).Coherent where
  inhabited := coherent.inhabited
  modelled other := by
    refine Iff.trans ?_ (coherent.modelled other)
    show ((m.insertModel key model).getModel other).isSome ↔ (m.getModel other).isSome
    rw [getModel_insertModel]
    split_ifs with same
    · subst same
      exact iff_of_true rfl found
    · exact .rfl
  pending := coherent.pending
  subscribed := coherent.subscribed

theorem Accounted.models_insert (accounted : w.Accounted) (sound : next.Sound) (key other : DiffModelKey)
    (model : LocalDiffStateModel δ μ) (found : (w.manager.insertModel key next).getModel other = some model) :
    model.Sound := by
  rw [getModel_insertModel] at found
  split_ifs at found
  · cases found
    exact sound
  · exact accounted.models other model found

theorem Accounted.modelChanges (accounted : w.Accounted) (found : w.manager.getModel key = some model)
    (sound : next.Sound) (unsettled : model.Unsettled → next.Unsettled) :
    (w.withManager (w.manager.insertModel key next)).Accounted := by
  have present : (w.manager.getModel key).isSome := by rw [found]; rfl
  refine accounted.keep (insertModel_coherent accounted.coherent present next) rfl rfl (fun _ => rfl) rfl ?_
    (accounted.models_insert sound key)
  intro other _ busy
  refine busy.of_model (fun reload running => ⟨reload, running, rfl⟩) fun old isOld wasUnsettled => ?_
  show ∃ model', (w.manager.insertModel key next).getModel other = some model' ∧ _
  rw [getModel_insertModel]
  split_ifs with same
  · subst same
    cases found.symm.trans isOld
    exact ⟨next, rfl, unsettled wasUnsettled⟩
  · exact ⟨old, isOld, wasUnsettled⟩

theorem drained_responses (w : World δ μ) (key : DiffModelKey) (model : LocalDiffStateModel δ μ) (diffs : Option δ)
    (reload : Option Reload) :
    (w.answers ++ w.drained key model diffs reload).map Answer.response = w.answers.map Answer.response ++ w.waiting key := by
  rw [map_append, drained, List.map_map]
  congr 1
  exact List.map_id _

theorem Accounted.newDiffs (accounted : w.Accounted) (found : w.manager.getModel key = some model) (sound : next.Sound)
    (diffs : Option δ) (produced : List Source) :
    Accounted
      { w.withManager ((w.manager.insertModel key next).drainPendingResponses key).2 with
        answers := w.answers ++ w.drained key next diffs none
        produced := produced } := by
  have present : (w.manager.getModel key).isSome := by rw [found]; rfl
  refine accounted.drain
    (RemoteDiffStateManager.drain_coherent (insertModel_coherent accounted.coherent present next)) rfl rfl
    ((RemoteDiffStateManager.waiting_drain _ key key).trans (if_pos rfl))
    (fun other apart => (RemoteDiffStateManager.waiting_drain _ key other).trans (if_neg apart))
    (drained_responses w key next diffs none) ?_ (accounted.models_insert sound key)
  intro other apart busy
  refine busy.of_model (fun reload running => ⟨reload, running, rfl⟩) fun old isOld unsettled => ⟨old, ?_, unsettled⟩
  show (w.manager.insertModel key next).getModel other = some old
  rw [getModel_insertModel, if_neg apart]
  exact isOld

theorem Busy.of_filter (busy : w.Busy other) (apart : other ≠ reload.key)
    (unique : ∀ running ∈ w.daemon.reloads, running.future = reload.future → running = reload)
    (models : w'.manager.getModel other = w.manager.getModel other)
    (reloads : w'.daemon.reloads = w.daemon.reloads.filter (·.future ≠ reload.future)) : w'.Busy other := by
  rcases busy with ⟨running, isRunning, rfl⟩ | ⟨model, found, unsettled⟩
  · refine .inl ⟨running, ?_, rfl⟩
    rw [reloads]
    refine List.mem_filter.mpr ⟨isRunning, decide_eq_true fun same => apart ?_⟩
    rw [unique running isRunning same]
  · exact .inr ⟨model, models.trans found, unsettled⟩

theorem settled_coherent (coherent : w.manager.Coherent) : (w.settled reload).Coherent :=
  ⟨coherent.inhabited, coherent.modelled, coherent.pending, coherent.subscribed⟩

theorem Accounted.reloadEnded (accounted : w.Accounted)
    (unique : ∀ running ∈ w.daemon.reloads, running.future = reload.future → running = reload) :
    (@World.reloadEnded δ μ φ w reload diffs).Accounted := by
  cases found : w.manager.getModel reload.key with
  | none =>
    rw [reloadEnded_absent found]
    refine accounted.keep (settled_coherent accounted.coherent) rfl rfl (fun _ => rfl) rfl ?_ accounted.models
    intro other waits busy
    have apart : other ≠ reload.key := by
      rintro rfl
      obtain ⟨model, isModel⟩ := accounted.coherent.model_of_waiting waits
      cases found.symm.trans isModel
    exact busy.of_filter apart unique rfl rfl
  | some model =>
    rw [reloadEnded_present found]
    refine accounted.drain (RemoteDiffStateManager.drain_coherent (settled_coherent accounted.coherent)) rfl rfl
      ((RemoteDiffStateManager.waiting_drain _ _ _).trans (if_pos rfl))
      (fun other apart => (RemoteDiffStateManager.waiting_drain _ _ other).trans (if_neg apart))
      (drained_responses w reload.key model diffs (some reload)) ?_ accounted.models
    exact fun other apart busy => busy.of_filter apart unique rfl rfl

end Accounts

def asking (w : World δ μ) (daemon : Daemon δ μ) (key : DiffModelKey) (response : PendingDiffStateResponse) : World δ μ :=
  { w with daemon := daemon, requests := w.requests ++ [⟨key, response, w.sourceFor key⟩] }

def queued (w : World δ μ) (key : DiffModelKey) (requestId : RequestId) (connId : ConnectionId) : Daemon δ μ :=
  { w.daemon with diffStates := (w.manager.subscribeConnection key connId).addPendingResponse key requestId connId }

theorem getDiffState_new (absent : w.manager.getModel key = none) :
    w.getDiffState connId requestId key =
      w.asking
        { w.daemon with
          diffStates :=
            ((w.manager.subscribeConnection key connId).insertModel key (.new w.daemon.nextModel)).addPendingResponse key
              requestId connId
          nextModel := w.daemon.nextModel + 1 } key ⟨requestId, connId⟩ := by
  unfold getDiffState Daemon.subscribe
  dsimp only
  rw [show (w.daemon.diffStates.subscribeConnection key connId).getModel key = none from absent]
  dsimp only [replies]
  rw [append_nil]
  rfl

theorem getDiffState_loading (found : w.manager.getModel key = some model) (loading : model.get = .loading) :
    w.getDiffState connId requestId key = w.asking (w.queued key requestId connId) key ⟨requestId, connId⟩ := by
  unfold getDiffState Daemon.subscribe
  dsimp only
  rw [show (w.daemon.diffStates.subscribeConnection key connId).getModel key = some model from found]
  dsimp only
  rw [loading]
  dsimp only [replies]
  rw [append_nil]
  rfl

theorem hasPendingResponses_iff (m : RemoteDiffStateManager δ μ) (key : DiffModelKey) :
    m.hasPendingResponses key = true ↔ m.waiting key ≠ [] := by
  unfold RemoteDiffStateManager.hasPendingResponses RemoteDiffStateManager.waiting HashMap.values
  cases m.pendingResponses.get? key with
  | none => simp
  | some pending => simp

theorem getDiffState_loaded (found : w.manager.getModel key = some model) (loaded : model.get = .loaded) :
    w.getDiffState connId requestId key =
      w.asking
        (if w.waiting key = [] then (w.queued key requestId connId).spawnContentReload key requestId
          else w.queued key requestId connId) key ⟨requestId, connId⟩ := by
  unfold getDiffState Daemon.subscribe
  dsimp only
  rw [show (w.daemon.diffStates.subscribeConnection key connId).getModel key = some model from found]
  dsimp only
  rw [loaded]
  dsimp only
  have pending := hasPendingResponses_iff w.manager key
  by_cases nothing : w.waiting key = []
  · have none : ¬ (w.daemon.diffStates.subscribeConnection key connId).hasPendingResponses key = true :=
      fun some => pending.mp some nothing
    rw [if_neg none, if_pos nothing]
    dsimp only [replies]
    rw [append_nil]
    rfl
  · have some : (w.daemon.diffStates.subscribeConnection key connId).hasPendingResponses key = true := pending.mpr nothing
    rw [if_pos some, if_neg nothing]
    dsimp only [replies]
    rw [append_nil]
    rfl

theorem getDiffState_finished (found : w.manager.getModel key = some model) (notLoading : model.get ≠ .loading)
    (notLoaded : model.get ≠ .loaded) :
    w.getDiffState connId requestId key =
      { w.asking { w.daemon with diffStates := w.manager.subscribeConnection key connId } key ⟨requestId, connId⟩ with
        answers := w.answers ++ [⟨⟨requestId, connId⟩, model.get, model.metadata, none, model.id, none⟩] } := by
  unfold getDiffState Daemon.subscribe
  dsimp only
  rw [show (w.daemon.diffStates.subscribeConnection key connId).getModel key = some model from found]
  dsimp only
  have connected : model.get ≠ .disconnected := by
    unfold LocalDiffStateModel.get
    split <;> exact DiffState.noConfusion
  cases state : model.get with
  | loading => exact absurd state notLoading
  | loaded => exact absurd state notLoaded
  | disconnected => exact absurd state connected
  | notInRepository | error err =>
    dsimp only [replies]
    rw [found]
    rfl

theorem waiting_queued (w : World δ μ) (key other : DiffModelKey) (requestId : RequestId) (connId : ConnectionId) :
    (w.queued key requestId connId).diffStates.waiting other =
      w.waiting other ++ if other = key then [⟨requestId, connId⟩] else [] := HashMap.values_extend _ _ _ _

theorem fresh_response (fresh : requestId ∉ w.requests.map fun r => r.response.requestId) :
    (⟨requestId, connId⟩ : PendingDiffStateResponse) ∉ w.book.asked.map Prod.snd := by
  rw [book_responses]
  intro asked
  obtain ⟨r, member, same⟩ := List.mem_map.mp asked
  exact fresh (List.mem_map.mpr ⟨r, member, by rw [same]⟩)

theorem ids_snoc (accounted : w.Accounted) (fresh : requestId ∉ w.requests.map fun r => r.response.requestId) (source : Source) :
    ((w.requests ++ [Request.mk key ⟨requestId, connId⟩ source]).map fun r => r.response.requestId).Nodup := by
  rw [map_append, map_singleton]
  apply List.Nodup.append accounted.ids (nodup_singleton _)
  intro id member isNew
  rw [mem_singleton] at isNew
  subst isNew
  exact fresh member

theorem Accounted.ask (accounted : w.Accounted) (fresh : requestId ∉ w.requests.map fun r => r.response.requestId)
    {daemon : Daemon δ μ} (coherent : daemon.diffStates.Coherent)
    (waiting : ∀ other, daemon.diffStates.waiting other = w.waiting other ++ if other = key then [⟨requestId, connId⟩] else [])
    (busyHere : (w.asking daemon key ⟨requestId, connId⟩).Busy key)
    (busyOthers : ∀ other ≠ key, w.Busy other → (w.asking daemon key ⟨requestId, connId⟩).Busy other)
    (models : ∀ key model, daemon.diffStates.getModel key = some model → model.Sound) :
    (w.asking daemon key ⟨requestId, connId⟩).Accounted where
  coherent := coherent
  ids := ids_snoc accounted fresh _
  book := by
    have here := waiting key
    rw [if_pos rfl] at here
    have unasked : (⟨requestId, connId⟩ : PendingDiffStateResponse) ∉ w.book.asked.map Prod.snd := fresh_response fresh
    have asks := accounted.book.ask unasked here fun other apart => by
      rw [waiting other, if_neg apart, append_nil]
      rfl
    unfold World.book asking
    rw [map_append]
    exact asks
  busy other waits := by
    by_cases same : other = key
    · rw [same]
      exact busyHere
    · apply busyOthers other same
      apply accounted.busy other
      intro nothing
      apply waits
      show daemon.diffStates.waiting other = []
      rw [waiting other, if_neg same, nothing]
      rfl
  models := models

theorem queued_coherent (accounted : w.Accounted) (found : w.manager.getModel key = some model) (requestId : RequestId)
    (connId : ConnectionId) (inProgress : HashMap RequestId ℕ) :
    RemoteDiffStateManager.Coherent { (w.queued key requestId connId).diffStates with inProgress := inProgress } := by
  have present : (w.manager.states.get? key).isSome := by rw [show w.manager.states.get? key = some model from found]; rfl
  refine accounted.coherent.subscribe present (fun _ _ => .rfl) (fun other apart => ?_) fun p member => ?_
  · show (w.manager.pendingResponses.extend key _).get? other = _
    unfold HashMap.extend
    rw [HashMap.get?_insert, if_neg apart]
  · change p ∈ (w.manager.pendingResponses.extend key [⟨requestId, connId⟩]).values key at member
    rw [HashMap.values_extend, if_pos rfl] at member
    rcases List.mem_append.mp member with old | new
    · exact .inl old
    · exact .inr (by rw [List.mem_singleton.mp new])

theorem Accounted.getDiffState (accounted : w.Accounted)
    (fresh : requestId ∉ w.requests.map fun r => r.response.requestId) : (w.getDiffState connId requestId key).Accounted := by
  cases found : w.manager.getModel key with
  | none =>
    rw [getDiffState_new found]
    have others : ∀ other ≠ key, ((w.manager.subscribeConnection key connId).insertModel key
        (.new w.daemon.nextModel)).getModel other = w.manager.getModel other := fun other apart =>
      (getModel_insertModel _ _ _ _).trans (if_neg apart)
    have here : ((w.manager.subscribeConnection key connId).insertModel key (.new w.daemon.nextModel)).getModel key =
        some (.new w.daemon.nextModel) := (getModel_insertModel _ _ _ _).trans (if_pos rfl)
    have nothing : w.waiting key = [] := by
      by_contra waits
      obtain ⟨model, isModel⟩ := accounted.coherent.model_of_waiting waits
      cases found.symm.trans isModel
    refine accounted.ask fresh ?_ (fun other => waiting_queued w key other requestId connId) ?_ ?_ ?_
    · refine accounted.coherent.subscribe ?_ ?_ ?_ ?_
      · exact Option.isSome_iff_exists.mpr ⟨_, here⟩
      · intro other apart
        rw [show (_ : HashMap DiffModelKey (LocalDiffStateModel δ μ)).get? other = _ from others other apart]
        rfl
      · intro other apart
        show (w.manager.pendingResponses.extend key _).get? other = _
        unfold HashMap.extend
        rw [HashMap.get?_insert, if_neg apart]
      · intro p member
        change p ∈ (w.manager.pendingResponses.extend key [⟨requestId, connId⟩]).values key at member
        rw [HashMap.values_extend, if_pos rfl] at member
        rcases List.mem_append.mp member with old | new
        · exact .inl old
        · exact .inr (by rw [List.mem_singleton.mp new])
    · exact .inr ⟨_, here, .inl rfl⟩
    · intro other apart busy
      refine busy.of_model (fun reload running => ⟨reload, running, rfl⟩) fun old isOld unsettled => ⟨old, ?_, unsettled⟩
      exact (others other apart).trans isOld
    · intro other model isModel
      by_cases same : other = key
      · subst same
        cases here.symm.trans isModel
        exact LocalDiffStateModel.new_sound _
      · exact accounted.models other model ((others other same).symm.trans isModel)
  | some model =>
    have queuedBusy : ∀ daemon : Daemon δ μ, daemon.diffStates.states = w.manager.states →
        (∀ reload ∈ w.daemon.reloads, reload ∈ daemon.reloads) → ∀ other, w.Busy other →
        (w.asking daemon key ⟨requestId, connId⟩).Busy other := by
      intro daemon states reloads other busy
      refine busy.of_model (fun reload running => ⟨reload, reloads reload running, rfl⟩) fun old isOld unsettled => ?_
      exact ⟨old, (congrArg (·.get? other) states).trans isOld, unsettled⟩
    by_cases loading : model.get = .loading
    · rw [getDiffState_loading found loading]
      refine accounted.ask fresh (queued_coherent accounted found requestId connId _)
        (fun other => waiting_queued w key other requestId connId) (.inr ⟨model, found, .inr loading⟩)
        (fun other _ busy => queuedBusy _ rfl (fun _ running => running) other busy) accounted.models
    by_cases loaded : model.get = .loaded
    · rw [getDiffState_loaded found loaded]
      by_cases nothing : w.waiting key = []
      · rw [if_pos nothing]
        have running : ∀ reload ∈ w.daemon.reloads,
            reload ∈ ((w.queued key requestId connId).spawnContentReload key requestId).reloads := fun reload member =>
          mem_append_left _ member
        have coherent : ((w.queued key requestId connId).spawnContentReload key requestId).diffStates.Coherent :=
          queued_coherent accounted found requestId connId _
        refine accounted.ask fresh coherent (fun other => waiting_queued w key other requestId connId)
          (.inl ⟨⟨w.daemon.nextFuture, requestId, key, false, w.daemon.nextModel⟩, ?_, rfl⟩)
          (fun other _ busy => queuedBusy (Daemon.spawnContentReload _ key requestId) rfl running other busy) accounted.models
        exact mem_append_right _ (mem_singleton_self _)
      · rw [if_neg nothing]
        exact accounted.ask fresh (queued_coherent accounted found requestId connId _)
          (fun other => waiting_queued w key other requestId connId)
          (queuedBusy _ rfl (fun _ running => running) key (accounted.busy key nothing))
          (fun other _ busy => queuedBusy _ rfl (fun _ running => running) other busy) accounted.models
    · rw [getDiffState_finished found loading loaded]
      have present : (w.manager.states.get? key).isSome := by rw [show w.manager.states.get? key = some model from found]; rfl
      have unasked : (⟨requestId, connId⟩ : PendingDiffStateResponse) ∉ w.book.asked.map Prod.snd := fresh_response fresh
      have replied := @RequestBook.Balanced.reply _ _ _ key _ accounted.book unasked
      exact
        { coherent := accounted.coherent.subscribe present (fun _ _ => .rfl) (fun _ _ => rfl) fun _ member => .inl member
          ids := ids_snoc accounted fresh _
          book := by
            unfold World.book asking
            rw [map_append, map_append]
            exact replied
          busy := fun other waits => queuedBusy _ rfl (fun _ running => running) other (accounted.busy other waits)
          models := accounted.models }

theorem Accounted.abort (accounted : w.Accounted) (attributed : w.Attributed (.abort connId requestId : Action δ μ φ)) :
    (w.step (.abort connId requestId : Action δ μ φ)).Accounted := by
  unfold step Daemon.handleAbort
  dsimp only
  have unchanged : RemoteDiffStateManager.Narrowed (fun _ _ => False) w.manager w.manager := .refl _
  have kept : (w.withdraw fun r => r.response = ⟨requestId, connId⟩).Accounted :=
    accounted.narrow accounted.coherent unchanged fun _ _ _ => False.elim
  cases running : w.daemon.diffStates.inProgress.get? requestId with
  | some future =>
    dsimp only
    refine kept.keep ⟨accounted.coherent.1, accounted.coherent.2, accounted.coherent.3, accounted.coherent.4⟩ rfl rfl
      (fun _ => rfl) rfl ?_ accounted.models
    intro other _ busy
    refine busy.of_model (fun reload isRunning => ?_) fun old isOld unsettled => ⟨old, isOld, unsettled⟩
    refine ⟨_, List.mem_map.mpr ⟨reload, isRunning, rfl⟩, ?_⟩
    split_ifs <;> rfl
  | none =>
    dsimp only
    obtain ⟨coherent, narrowed⟩ : (w.manager.abortPendingResponse requestId).Coherent ∧ _ :=
      RemoteDiffStateManager.abortPendingResponse_spec accounted.coherent
    refine accounted.narrow coherent narrowed fun r isAsked waits isId => decide_eq_true ?_
    have isConn := attributed (by rw [show w.manager.inProgress.get? requestId = none from running]; rfl) r.key r.response
      waits isId
    rw [← isId, ← isConn]

theorem noRepository_sound (sound : model.Sound) : model.noRepository.Sound :=
  ⟨fun detecting => (nomatch detecting), sound.loading⟩

theorem setActiveRepository_sound : model.setActiveRepository.Sound := ⟨fun detecting => (nomatch detecting), fun _ => rfl⟩

theorem loadDiffs_sound (sound : model.Sound) : model.loadDiffsForCurrentRepo.Sound := by
  unfold LocalDiffStateModel.loadDiffsForCurrentRepo
  by_cases repository : model.repository = true
  · rw [if_pos repository]
    refine ⟨fun detecting => ?_, fun _ => repository⟩
    have missing := (sound.detecting detecting).2
    rw [repository] at missing
    cases missing
  · rw [if_neg repository]
    exact sound

theorem loadDiffs_unsettled (unsettled : model.Unsettled) : model.loadDiffsForCurrentRepo.Unsettled := by
  unfold LocalDiffStateModel.loadDiffsForCurrentRepo
  split_ifs
  · exact .inr rfl
  · exact unsettled

theorem handleUpdated_sound (sound : model.Sound) (repository : model.repository = true) (changes : Except String δ) :
    (model.handleUpdatedStateForRepo changes).Sound := by
  refine ⟨fun detecting => ?_, fun _ => repository⟩
  have missing := (sound.detecting detecting).2
  rw [repository] at missing
  cases missing

theorem reload_unique (distinct : (w.daemon.reloads.map Reload.future).Nodup) (running : reload ∈ w.daemon.reloads) :
    ∀ other ∈ w.daemon.reloads, other.future = reload.future → other = reload := fun _ member same =>
  inj_on_of_nodup_map distinct member running same

theorem Accounted.step (accounted : w.Accounted) (distinct : (w.daemon.reloads.map Reload.future).Nodup)
    {action : Action δ μ φ} (fresh : w.Fresh action) (attributed : w.Attributed action) : (w.step action).Accounted := by
  cases action with
  | getDiffState connId requestId key => exact accounted.getDiffState fresh
  | unsubscribeDiffState connId key =>
    obtain ⟨coherent, narrowed⟩ : (w.manager.unsubscribeConnection key connId).Coherent ∧ _ :=
      RemoteDiffStateManager.unsubscribeConnection_spec accounted.coherent
    exact accounted.narrow coherent narrowed fun r _ _ isDropped => decide_eq_true isDropped
  | abort connId requestId => exact accounted.abort attributed
  | disconnect connId =>
    obtain ⟨coherent, narrowed⟩ : (w.manager.removeConnection connId).Coherent ∧ _ :=
      RemoteDiffStateManager.removeConnection_spec accounted.coherent
    exact accounted.narrow coherent narrowed fun r _ _ isDropped => decide_eq_true isDropped
  | reloadCompleted future diffs =>
    unfold World.step
    cases found : w.daemon.reloads.find? (·.future = future) with
    | none => simpa only [found] using accounted
    | some reload =>
      simp only [found]
      exact accounted.reloadEnded (reload_unique distinct (mem_of_find?_eq_some found))
  | reloadCancelled future =>
    unfold World.step
    cases found : w.daemon.reloads.find? (·.future = future) with
    | none => simpa only [found] using accounted
    | some reload =>
      simp only [found]
      split_ifs
      · exact accounted.reloadEnded (reload_unique distinct (mem_of_find?_eq_some found))
      · exact accounted
  | repositoryDetected key isFound =>
    unfold World.step
    cases found : w.manager.getModel key with
    | none => simpa only [found] using accounted
    | some model =>
      have sound := accounted.models key model found
      simp only [found]
      split_ifs with detecting
      · rw [modelStep_none found]
        exact accounted.modelChanges found setActiveRepository_sound fun _ => .inr rfl
      · rw [modelStep_newDiffs found _ rfl]
        exact accounted.newDiffs found (noRepository_sound sound) none w.produced
      · exact accounted
  | loadStarted key =>
    unfold World.step
    cases found : w.manager.getModel key with
    | none => simpa only [found] using accounted
    | some model =>
      simp only [found]
      rw [modelStep_none found]
      exact accounted.modelChanges found (loadDiffs_sound (accounted.models key model found)) loadDiffs_unsettled
  | loadFinished key changes =>
    unfold World.step
    cases found : w.manager.getModel key with
    | none => simpa only [found] using accounted
    | some model =>
      simp only [found]
      by_cases repository : model.repository = true
      · rw [if_pos repository, modelStep_newDiffs found _ rfl]
        exact accounted.newDiffs found (handleUpdated_sound (accounted.models key model found) repository changes) _ _
      · rw [if_neg repository]
        exact accounted
  | metadataComputed key metadata event =>
    unfold World.step
    cases found : w.manager.getModel key with
    | none => simpa only [found] using accounted
    | some model =>
      simp only [found]
      have sound := accounted.models key model found
      split_ifs with isMetadata
      · have pushes : ∀ diffs, event ≠ .newDiffsComputed diffs := by
          rintro diffs rfl
          cases isMetadata
        rw [modelStep_push found _ event pushes]
        exact accounted.modelChanges found ⟨sound.detecting, sound.loading⟩ id
      · exact accounted
  | singleFileUpdated key path diff =>
    unfold World.step
    cases found : w.manager.getModel key with
    | none => simpa only [found] using accounted
    | some model =>
      simp only [found]
      rw [modelStep_push found id _ (by rintro _ ⟨⟩)]
      exact accounted.modelChanges found (accounted.models key model found) id

end World

end Warp.CodeReview
