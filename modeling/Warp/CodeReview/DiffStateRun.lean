import Warp.CodeReview.DiffStateManager
import Warp.Lib.RequestBook
import Warp.Lib.Trace

namespace Warp.CodeReview

open Remote (RequestId)

inductive Source where
  | reload (future : ℕ)
  | load (model : ℕ)
  deriving DecidableEq

structure Request where
  key : DiffModelKey
  response : PendingDiffStateResponse
  source : Source
  deriving DecidableEq

/-- A response that was sent, with the model that it reports and the reload whose end sent it. -/
structure Answer (δ μ : Type) where
  response : PendingDiffStateResponse
  state : DiffState
  metadata : Option μ
  diffs : Option δ
  model : ℕ
  reload : Option Reload

inductive Action (δ μ φ : Type) where
  | getDiffState (connId : ConnectionId) (requestId : RequestId) (key : DiffModelKey)
  | unsubscribeDiffState (connId : ConnectionId) (key : DiffModelKey)
  | abort (connId : ConnectionId) (requestId : RequestId)
  | disconnect (connId : ConnectionId)
  | reloadCompleted (future : ℕ) (diffs : Option δ)
  | reloadCancelled (future : ℕ)
  | repositoryDetected (key : DiffModelKey) (found : Bool)
  | loadStarted (key : DiffModelKey)
  | loadFinished (key : DiffModelKey) (changes : Except String δ)
  | metadataComputed (key : DiffModelKey) (metadata : Option μ) (event : DiffStateModelEvent δ μ φ)
  | singleFileUpdated (key : DiffModelKey) (path : String) (diff : Option φ)

/-- The daemon with what its clients asked, gave up and got, and the reloads and loads that brought diffs. -/
structure World (δ μ : Type) where
  daemon : Daemon δ μ
  requests : List Request
  withdrawn : List PendingDiffStateResponse
  answers : List (Answer δ μ)
  produced : List Source

/-- The responses that an update sends to requests. Pushes answer nothing. -/
def DiffStateUpdate.answers {δ μ φ : Type} (model : ℕ) (reload : Option Reload) : DiffStateUpdate δ μ φ → List (Answer δ μ)
  | .snapshot _ state metadata diffs subscribers =>
    subscribers.filterMap fun subscriber =>
      subscriber.2.map fun requestId => ⟨⟨requestId, subscriber.1⟩, state, metadata, diffs, model, reload⟩
  | .metadataUpdate .. => []
  | .fileDelta .. => []

def DiffStateModelEvent.isMetadata {δ μ φ : Type} : DiffStateModelEvent δ μ φ → Bool
  | .currentBranchChanged => true
  | .metadataRefreshed _ => true
  | _ => false

namespace World

variable {δ μ φ : Type} (w : World δ μ)

def new : World δ μ := ⟨.new, [], [], [], []⟩

def manager : RemoteDiffStateManager δ μ := w.daemon.diffStates

def waiting (key : DiffModelKey) : List PendingDiffStateResponse := w.manager.waiting key

def sourceOf (p : PendingDiffStateResponse) : Option Source := (w.requests.find? (·.response = p)).map Request.source

/-- A request for loaded diffs begins a reload, or joins those that wait for one. Other requests wait for their model. -/
def sourceFor (key : DiffModelKey) : Source :=
  match w.manager.getModel key with
  | none => .load w.daemon.nextModel
  | some model =>
    match model.get, w.waiting key with
    | .loaded, [] => .reload w.daemon.nextFuture
    | .loaded, p :: _ => (w.sourceOf p).getD (.reload w.daemon.nextFuture)
    | _, _ => .load model.id

def replies (response : PendingDiffStateResponse) : SubscribeOutcome μ → List (Answer δ μ)
  | .respondWithSnapshot key state metadata =>
    [⟨response, state, metadata, none, ((w.manager.getModel key).map LocalDiffStateModel.id).getD 0, none⟩]
  | .async => []

def getDiffState (connId : ConnectionId) (requestId : RequestId) (key : DiffModelKey) : World δ μ :=
  let (outcome, daemon) := w.daemon.subscribe key requestId connId
  { w with
    daemon := daemon
    requests := w.requests ++ [⟨key, ⟨requestId, connId⟩, w.sourceFor key⟩]
    answers := w.answers ++ w.replies ⟨requestId, connId⟩ outcome }

def withManager (manager : RemoteDiffStateManager δ μ) : World δ μ := { w with daemon := { w.daemon with diffStates := manager } }

def withdraw (given : Request → Bool) : World δ μ :=
  { w with withdrawn := w.withdrawn ++ (w.requests.filter given).map Request.response }

def reloadEnded (reload : Reload) (diffs : Option δ) : World δ μ :=
  let model := ((w.manager.getModel reload.key).map LocalDiffStateModel.id).getD 0
  let (updates, daemon) := @Daemon.reloadEnded δ μ φ w.daemon reload diffs
  { w with
    daemon := daemon
    answers := w.answers ++ updates.flatMap (DiffStateUpdate.answers model (some reload))
    produced := w.produced ++ if diffs.isSome then [.reload reload.future] else [] }

def modelStep (key : DiffModelKey) (model : LocalDiffStateModel δ μ)
    (change : LocalDiffStateModel δ μ → LocalDiffStateModel δ μ) (event : Option (DiffStateModelEvent δ μ φ)) : World δ μ :=
  let (updates, daemon) := w.daemon.modelStep key change event
  { w with daemon := daemon, answers := w.answers ++ updates.flatMap (DiffStateUpdate.answers model.id none) }

/-- One message or event. What cannot happen in a state changes nothing. -/
def step (w : World δ μ) : Action δ μ φ → World δ μ
  | .getDiffState connId requestId key => w.getDiffState connId requestId key
  | .unsubscribeDiffState connId key =>
    (w.withdraw fun r => r.key = key ∧ r.response.connId = connId).withManager (w.manager.unsubscribeConnection key connId)
  | .abort connId requestId =>
    { w.withdraw fun r => r.response = ⟨requestId, connId⟩ with daemon := w.daemon.handleAbort requestId }
  | .disconnect connId =>
    (w.withdraw fun r => r.response.connId = connId).withManager (w.manager.removeConnection connId)
  | .reloadCompleted future diffs =>
    match w.daemon.reloads.find? (·.future = future) with
    | some reload => @World.reloadEnded δ μ φ w reload diffs
    | none => w
  | .reloadCancelled future =>
    match w.daemon.reloads.find? (·.future = future) with
    | some reload => if reload.aborted then @World.reloadEnded δ μ φ w reload none else w
    | none => w
  | .repositoryDetected key found =>
    match w.manager.getModel key with
    | some model =>
      if model.detecting then
        if found then w.modelStep key model .setActiveRepository (none : Option (DiffStateModelEvent δ μ φ))
        else w.modelStep key model .noRepository (some (.newDiffsComputed none) : Option (DiffStateModelEvent δ μ φ))
      else w
    | none => w
  | .loadStarted key =>
    match w.manager.getModel key with
    | some model => w.modelStep key model .loadDiffsForCurrentRepo (none : Option (DiffStateModelEvent δ μ φ))
    | none => w
  | .loadFinished key changes =>
    match w.manager.getModel key with
    | some model =>
      if model.repository then
        { w.modelStep key model (·.handleUpdatedStateForRepo changes)
            (some (.newDiffsComputed changes.toOption) : Option (DiffStateModelEvent δ μ φ)) with
          produced := w.produced ++ if changes.toOption.isSome then [.load model.id] else [] }
      else w
    | none => w
  | .metadataComputed key metadata event =>
    match w.manager.getModel key with
    | some model =>
      if event.isMetadata then w.modelStep key model (fun model => { model with metadata := metadata }) (some event) else w
    | none => w
  | .singleFileUpdated key path diff =>
    match w.manager.getModel key with
    | some model => w.modelStep key model id (some (.singleFileUpdated path diff))
    | none => w

def Fresh : Action δ μ φ → Prop
  | .getDiffState _ requestId _ => requestId ∉ w.requests.map fun r => r.response.requestId
  | _ => True

/-- A reload that ends while responses wait for its key meets no loading model that was created after it began, and, when
it brings no diffs for a loaded model, all that wait do so for this reload. -/
def EndsWell (reload : Reload) (diffs : Option δ) : Prop :=
  ∀ model, w.manager.getModel reload.key = some model → w.waiting reload.key ≠ [] →
    (model.get = .loading → model.id < reload.models) ∧
      (model.get = .loaded → diffs.isNone → ∀ p ∈ w.waiting reload.key, w.sourceOf p = some (.reload reload.future))

/-- No reload ends for requests that do not wait for it, and no client aborts a waiting request of another. -/
def Attributed : Action δ μ φ → Prop
  | .abort connId requestId =>
    (w.manager.inProgress.get? requestId).isNone →
      ∀ key, ∀ p ∈ w.waiting key, p.requestId = requestId → p.connId = connId
  | .reloadCompleted future diffs => ∀ reload ∈ w.daemon.reloads, reload.future = future → w.EndsWell reload diffs
  | .reloadCancelled future =>
    ∀ reload ∈ w.daemon.reloads, reload.future = future → reload.aborted → w.EndsWell reload none
  | _ => True

def Busy (key : DiffModelKey) : Prop :=
  (∃ reload ∈ w.daemon.reloads, reload.key = key) ∨
    ∃ model, w.manager.getModel key = some model ∧ (model.detecting ∨ model.get = .loading)

structure Truthful (φ : Type) (w : World δ μ) : Prop where
  once : (w.answers.map fun a => a.response.requestId).Nodup
  asked : ∀ a ∈ w.answers, ∃ r ∈ w.requests, r.response = a.response
  answered : ∀ r ∈ w.requests, r.response ∉ w.withdrawn →
    (∃ a ∈ w.answers, a.response = r.response) ∨ (r.response ∈ w.waiting r.key ∧ w.Busy r.key)
  reloadAnswers : ∀ reload ∈ w.daemon.reloads, ∀ diffs,
    (w.step (.reloadCompleted reload.future diffs : Action δ μ φ)).waiting reload.key = []
  loadAnswers : ∀ key model, w.manager.getModel key = some model →
    (model.detecting → (w.step (.repositoryDetected key false : Action δ μ φ)).waiting key = []) ∧
      (model.get = .loading → ∀ changes, (w.step (.loadFinished key changes : Action δ μ φ)).waiting key = [])
  carriesDiffs : ∀ a ∈ w.answers, a.state = .loaded → a.diffs.isNone → ∀ r ∈ w.requests, r.response = a.response →
    r.source ∉ w.produced
  notLoading : ∀ a ∈ w.answers, a.state = .loading → ∃ reload, a.reload = some reload ∧ a.model < reload.models
  subscribed : ∀ key, (w.manager.getModel key).isSome ∨ (w.manager.pendingResponses.get? key).isSome ∨
    (w.manager.keyToConnections.get? key).isSome → ∃ connId, connId ∈ w.manager.connections key

end World

end Warp.CodeReview
