import Warp.CodeReview.DiffStateAccounts

namespace Warp.CodeReview.World

open List

open Remote (RequestId)

variable {δ μ φ : Type} {w w' : World δ μ} {key : DiffModelKey} {model : LocalDiffStateModel δ μ} {reload : Reload}
  {diffs : Option δ} {connId : ConnectionId} {requestId : RequestId}

def Ended (w : World δ μ) (future : ℕ) : Prop := future < w.daemon.nextFuture ∧ future ∉ w.daemon.reloads.map Reload.future

/-- A loaded state without diffs goes to requests whose reload ended without them, and a loading state is that of a model
older than the reload. -/
structure Finished (w : World δ μ) (a : Answer δ μ) : Prop where
  loaded : a.state = .loaded → a.diffs.isNone → ∀ r ∈ w.requests, r.response = a.response →
    ∃ future, r.source = .reload future ∧ w.Ended future ∧ .reload future ∉ w.produced
  loading : a.state = .loading → ∃ reload, a.reload = some reload ∧ a.model < reload.models

structure Timely (w : World δ μ) : Prop where
  distinct : (w.daemon.reloads.map Reload.future).Nodup
  past : ∀ reload ∈ w.daemon.reloads, reload.future < w.daemon.nextFuture
  produced : ∀ future, .reload future ∈ w.produced → w.Ended future
  answers : ∀ a ∈ w.answers, w.Finished a

theorem new_timely : (new : World δ μ).Timely where
  distinct := nodup_nil
  past _ member := by cases member
  produced _ member := by cases member
  answers _ member := by cases member

/-- Reloads that ended stay so and bring no more diffs, and new requests are none of the old ones. -/
structure Advances (w w' : World δ μ) : Prop where
  distinct : (w'.daemon.reloads.map Reload.future).Nodup
  past : ∀ reload ∈ w'.daemon.reloads, reload.future < w'.daemon.nextFuture
  ended : ∀ future, w.Ended future → w'.Ended future
  produced : ∀ future, .reload future ∈ w'.produced → w'.Ended future ∧ (.reload future ∈ w.produced ∨ ¬ w.Ended future)
  requests : ∀ r ∈ w'.requests, r ∈ w.requests ∨ r.response ∉ w.requests.map Request.response

theorem Timely.advance (timely : w.Timely) (accounted : w.Accounted) (advances : Advances w w')
    (answers : ∀ a ∈ w'.answers, a ∈ w.answers ∨ w'.Finished a) : w'.Timely where
  distinct := advances.distinct
  past := advances.past
  produced future isProduced := (advances.produced future isProduced).1
  answers a member := by
    rcases answers a member with old | finished
    · have before := timely.answers a old
      refine ⟨fun loaded none r isAsked same => ?_, before.loading⟩
      have answered : a.response ∈ w.requests.map Request.response := by
        rw [← book_responses]
        exact accounted.book.answeredAsked _ (List.mem_map_of_mem old)
      have oldRequest : r ∈ w.requests := by
        apply (advances.requests r isAsked).resolve_right
        rw [same]
        exact fun fresh => fresh answered
      obtain ⟨future, source, ended, notProduced⟩ := before.loaded loaded none r oldRequest same
      refine ⟨future, source, advances.ended future ended, fun isProduced => ?_⟩
      exact (advances.produced future isProduced).2.elim notProduced (fun running => running ended)
    · exact finished

theorem Timely.still (timely : w.Timely) (reloads : w'.daemon.reloads.map Reload.future = w.daemon.reloads.map Reload.future)
    (next : w'.daemon.nextFuture = w.daemon.nextFuture)
    (produced : ∀ future, .reload future ∈ w'.produced → .reload future ∈ w.produced)
    (requests : ∀ r ∈ w'.requests, r ∈ w.requests ∨ r.response ∉ w.requests.map Request.response) : Advances w w' := by
  have ended : ∀ future, w'.Ended future ↔ w.Ended future := by
    intro future
    unfold Ended
    rw [reloads, next]
  refine ⟨?_, ?_, fun future => (ended future).mpr, fun future isProduced => ?_, requests⟩
  · rw [reloads]
    exact timely.distinct
  · intro reload running
    rw [next]
    have isOld := reloads ▸ List.mem_map_of_mem (f := Reload.future) running
    obtain ⟨old, wasRunning, same⟩ := List.mem_map.mp isOld
    rw [← same]
    exact timely.past old wasRunning
  · have before := produced future isProduced
    exact ⟨(ended future).mpr (timely.produced future before), .inl before⟩

theorem Timely.asking (timely : w.Timely) (fresh : requestId ∉ w.requests.map fun r => r.response.requestId) :
    ∀ r ∈ w.requests ++ [Request.mk key ⟨requestId, connId⟩ (w.sourceFor key)],
      r ∈ w.requests ∨ r.response ∉ w.requests.map Request.response := by
  intro r member
  refine (List.mem_append.mp member).imp_right fun isNew => ?_
  rw [mem_singleton] at isNew
  subst isNew
  rw [← book_responses]
  exact fresh_response fresh

theorem Timely.getDiffState (timely : w.Timely) (accounted : w.Accounted)
    (fresh : requestId ∉ w.requests.map fun r => r.response.requestId) : (w.getDiffState connId requestId key).Timely := by
  have requests : ∀ r ∈ w.requests ++ [Request.mk key ⟨requestId, connId⟩ (w.sourceFor key)], r ∈ w.requests ∨ _ :=
    timely.asking fresh
  cases found : w.manager.getModel key with
  | none =>
    rw [getDiffState_new found]
    exact timely.advance accounted (timely.still rfl rfl (fun _ => id) requests) fun a old => .inl old
  | some model =>
    by_cases loading : model.get = .loading
    · rw [getDiffState_loading found loading]
      exact timely.advance accounted (timely.still rfl rfl (fun _ => id) requests) fun a old => .inl old
    by_cases loaded : model.get = .loaded
    · rw [getDiffState_loaded found loaded]
      by_cases nothing : w.waiting key = []
      · rw [if_pos nothing]
        have begins : (w.daemon.reloads ++ [Reload.mk w.daemon.nextFuture requestId key false w.daemon.nextModel]).map
            Reload.future = w.daemon.reloads.map Reload.future ++ [w.daemon.nextFuture] := map_append
        have isNew : w.daemon.nextFuture ∉ w.daemon.reloads.map Reload.future := by
          intro member
          obtain ⟨reload, running, same⟩ := List.mem_map.mp member
          exact absurd (timely.past reload running) (by omega)
        have ended : ∀ future, w.Ended future → (w.asking ((w.queued key requestId connId).spawnContentReload key requestId) key
            ⟨requestId, connId⟩).Ended future := by
          intro future ended
          refine ⟨Nat.lt_succ_of_lt ended.1, fun member => ?_⟩
          change future ∈ List.map Reload.future (w.daemon.reloads ++ [_]) at member
          erw [begins] at member
          rcases List.mem_append.mp member with old | new
          · exact ended.2 old
          · exact absurd ended.1 (by rw [List.mem_singleton.mp new]; omega)
        refine timely.advance accounted ⟨?_, ?_, ended, fun future isProduced => ?_, requests⟩ fun a old => .inl old
        · show (List.map Reload.future (w.daemon.reloads ++ _)).Nodup
          erw [begins]
          apply timely.distinct.append (nodup_singleton _)
          intro future member new
          exact isNew (List.mem_singleton.mp new ▸ member)
        · intro reload member
          rcases List.mem_append.mp member with old | new
          · exact Nat.lt_succ_of_lt (timely.past reload old)
          · rw [List.mem_singleton.mp new]
            exact Nat.lt_succ_self _
        · exact ⟨ended future (timely.produced future isProduced), .inl isProduced⟩
      · rw [if_neg nothing]
        exact timely.advance accounted (timely.still rfl rfl (fun _ => id) requests) fun a old => .inl old
    · rw [getDiffState_finished found loading loaded]
      refine timely.advance accounted (timely.still rfl rfl (fun _ => id) requests) fun a member => ?_
      refine (List.mem_append.mp member).imp_right fun isNew => ?_
      rw [mem_singleton] at isNew
      subst isNew
      exact ⟨fun isLoaded => absurd isLoaded loaded, fun isLoading => absurd isLoading loading⟩

theorem Timely.newDiffs (timely : w.Timely) (accounted : w.Accounted) {next : LocalDiffStateModel δ μ}
    {manager : RemoteDiffStateManager δ μ} (loading : next.get ≠ .loading) (loaded : next.get = .loaded → diffs.isSome)
    {produced : List Source} (sources : ∀ future, .reload future ∈ produced → .reload future ∈ w.produced) :
    Timely { w.withManager manager with answers := w.answers ++ w.drained key next diffs none, produced := produced } := by
  refine timely.advance accounted (timely.still rfl rfl sources fun r old => .inl old) fun a member => ?_
  refine (List.mem_append.mp member).imp_right fun isNew => ?_
  obtain ⟨p, -, rfl⟩ := List.mem_map.mp isNew
  refine ⟨fun isLoaded none => ?_, fun isLoading => absurd isLoading loading⟩
  have some := loaded isLoaded
  rw [Option.isSome_iff_ne_none] at some
  exact absurd (Option.isNone_iff_eq_none.mp none) some

theorem sourceOf_eq (accounted : w.Accounted) {r : Request} (asked : r ∈ w.requests) : w.sourceOf r.response = some r.source := by
  unfold sourceOf
  cases found : w.requests.find? (·.response = r.response) with
  | none =>
    have none := List.find?_eq_none.mp found r asked
    simp at none
  | some first =>
    have isFirst := List.find?_some found
    rw [decide_eq_true_eq] at isFirst
    have same := inj_on_of_nodup_map accounted.ids (mem_of_find?_eq_some found) asked (by rw [isFirst])
    rw [same]
    rfl

theorem Timely.reloadEnded (timely : w.Timely) (accounted : w.Accounted) (running : reload ∈ w.daemon.reloads)
    (endsWell : w.EndsWell reload diffs) : (@World.reloadEnded δ μ φ w reload diffs).Timely := by
  have advances : ∀ (manager : RemoteDiffStateManager δ μ) (answers : List (Answer δ μ)), Advances w
      { w with
        daemon := { w.daemon with diffStates := manager, reloads := w.daemon.reloads.filter (·.future ≠ reload.future) }
        answers := answers
        produced := w.produced ++ if diffs.isSome then [.reload reload.future] else [] } := by
    intro manager answers
    have remains : ∀ future, future ∈ (w.daemon.reloads.filter (·.future ≠ reload.future)).map Reload.future →
        future ∈ w.daemon.reloads.map Reload.future ∧ future ≠ reload.future := by
      intro future member
      obtain ⟨other, isOther, rfl⟩ := List.mem_map.mp member
      have kept := List.mem_filter.mp isOther
      exact ⟨List.mem_map_of_mem kept.1, of_decide_eq_true kept.2⟩
    refine ⟨timely.distinct.sublist (List.filter_sublist.map _), fun other member => ?_, fun future ended => ?_,
      fun future isProduced => ?_, fun r old => .inl old⟩
    · exact timely.past other (List.mem_filter.mp member).1
    · exact ⟨ended.1, fun member => ended.2 (remains future member).1⟩
    · rcases List.mem_append.mp isProduced with old | new
      · have ended := timely.produced future old
        exact ⟨⟨ended.1, fun member => ended.2 (remains future member).1⟩, .inl old⟩
      · split_ifs at new
        · cases List.mem_singleton.mp new
          exact ⟨⟨timely.past reload running, fun member => (remains _ member).2 rfl⟩,
            .inr fun ended => ended.2 (List.mem_map_of_mem running)⟩
        · cases new
  cases found : w.manager.getModel reload.key with
  | none =>
    rw [reloadEnded_absent found]
    exact timely.advance accounted (advances _ _) fun a old => .inl old
  | some model =>
    rw [reloadEnded_present found]
    refine timely.advance accounted (advances _ _) fun a member => ?_
    refine (List.mem_append.mp member).imp_right fun isNew => ?_
    obtain ⟨p, waits, rfl⟩ := List.mem_map.mp isNew
    obtain ⟨loading, loaded⟩ := endsWell model found (ne_nil_of_mem waits)
    refine ⟨fun isLoaded none r asked same => ?_, fun isLoading => ⟨reload, rfl, loading isLoading⟩⟩
    have source := loaded isLoaded none p waits
    have isSource := sourceOf_eq accounted asked
    rw [show r.response = p from same, source, Option.some_inj] at isSource
    have ended : ({ w with daemon := { w.daemon with
        diffStates := ((w.settled reload).drainPendingResponses reload.key).2
        reloads := w.daemon.reloads.filter (·.future ≠ reload.future) } } : World δ μ).Ended reload.future := by
      refine ⟨timely.past reload running, fun member => ?_⟩
      obtain ⟨other, isOther, same⟩ := List.mem_map.mp member
      exact of_decide_eq_true (List.mem_filter.mp isOther).2 same
    refine ⟨reload.future, isSource.symm, ended, fun isProduced => ?_⟩
    rcases List.mem_append.mp isProduced with old | new
    · exact (timely.produced _ old).2 (List.mem_map_of_mem running)
    · have nothing : diffs = .none := Option.isNone_iff_eq_none.mp none
      rw [nothing] at new
      cases new

theorem future_of_find {future : ℕ} (found : w.daemon.reloads.find? (·.future = future) = some reload) :
    reload.future = future := by
  have isFuture := List.find?_some found
  exact of_decide_eq_true isFuture

theorem Timely.modelChanges (timely : w.Timely) (accounted : w.Accounted) (manager : RemoteDiffStateManager δ μ) :
    (w.withManager manager).Timely :=
  timely.advance accounted (timely.still rfl rfl (fun _ => id) fun r old => .inl old) fun a old => .inl old

theorem Timely.abort (timely : w.Timely) (accounted : w.Accounted) :
    (w.step (.abort connId requestId : Action δ μ φ)).Timely := by
  unfold step Daemon.handleAbort
  dsimp only
  cases running : w.daemon.diffStates.inProgress.get? requestId with
  | some future =>
    dsimp only
    refine timely.advance accounted (timely.still ?_ rfl (fun _ => id) fun r old => .inl old) fun a old => .inl old
    unfold Daemon.abortFuture
    dsimp only
    rw [List.map_map]
    apply map_congr_left
    intro reload _
    rw [Function.comp_apply]
    split_ifs <;> rfl
  | none => exact timely.advance accounted (timely.still rfl rfl (fun _ => id) fun r old => .inl old) fun a old => .inl old

theorem Timely.step (timely : w.Timely) (accounted : w.Accounted) {action : Action δ μ φ} (fresh : w.Fresh action)
    (attributed : w.Attributed action) : (w.step action).Timely := by
  cases action with
  | getDiffState connId requestId key => exact timely.getDiffState accounted fresh
  | unsubscribeDiffState connId key =>
    exact timely.advance accounted (timely.still rfl rfl (fun _ => id) fun r old => .inl old) fun a old => .inl old
  | abort connId requestId => exact timely.abort accounted
  | disconnect connId =>
    exact timely.advance accounted (timely.still rfl rfl (fun _ => id) fun r old => .inl old) fun a old => .inl old
  | reloadCompleted future diffs =>
    unfold World.step
    cases found : w.daemon.reloads.find? (·.future = future) with
    | none => simpa only [found] using timely
    | some reload =>
      simp only [found]
      have running := mem_of_find?_eq_some found
      exact timely.reloadEnded accounted running (attributed reload running (future_of_find found))
  | reloadCancelled future =>
    unfold World.step
    cases found : w.daemon.reloads.find? (·.future = future) with
    | none => simpa only [found] using timely
    | some reload =>
      simp only [found]
      have running := mem_of_find?_eq_some found
      split_ifs with aborted
      · exact timely.reloadEnded accounted running
          (attributed reload running (future_of_find found) aborted)
      · exact timely
  | repositoryDetected key isFound =>
    unfold World.step
    cases found : w.manager.getModel key with
    | none => simpa only [found] using timely
    | some model =>
      simp only [found]
      split_ifs with detecting
      · rw [modelStep_none found]
        exact timely.modelChanges accounted _
      · rw [modelStep_newDiffs found _ rfl]
        have state : model.noRepository.get = .notInRepository := by
          unfold LocalDiffStateModel.get
          rw [show model.noRepository.state = _ from ((accounted.models key model found).detecting detecting).1]
        exact timely.newDiffs accounted (by rw [state]; exact DiffState.noConfusion)
          (fun loaded => by rw [state] at loaded; cases loaded) fun _ => id
      · exact timely
  | loadStarted key =>
    unfold World.step
    cases found : w.manager.getModel key with
    | none => simpa only [found] using timely
    | some model =>
      simp only [found]
      rw [modelStep_none found]
      exact timely.modelChanges accounted _
  | loadFinished key changes =>
    unfold World.step
    cases found : w.manager.getModel key with
    | none => simpa only [found] using timely
    | some model =>
      simp only [found]
      by_cases repository : model.repository = true
      · rw [if_pos repository, modelStep_newDiffs found _ rfl]
        refine timely.newDiffs accounted ?_ ?_ fun future isProduced => ?_
        · cases changes <;> exact DiffState.noConfusion
        · cases changes with
          | error err => exact fun loaded => nomatch loaded
          | ok diffs => exact fun _ => rfl
        · apply (List.mem_append.mp isProduced).resolve_right
          split_ifs
          · exact fun isLoad => nomatch List.mem_singleton.mp isLoad
          · exact not_mem_nil
      · rw [if_neg repository]
        exact timely
  | metadataComputed key metadata event =>
    unfold World.step
    cases found : w.manager.getModel key with
    | none => simpa only [found] using timely
    | some model =>
      simp only [found]
      split_ifs with isMetadata
      · have pushes : ∀ diffs, event ≠ .newDiffsComputed diffs := by
          rintro diffs rfl
          cases isMetadata
        rw [modelStep_push found _ event pushes]
        exact timely.modelChanges accounted _
      · exact timely
  | singleFileUpdated key path diff =>
    unfold World.step
    cases found : w.manager.getModel key with
    | none => simpa only [found] using timely
    | some model =>
      simp only [found]
      rw [modelStep_push found id _ (by rintro _ ⟨⟩)]
      exact timely.modelChanges accounted _

theorem find_running (distinct : (w.daemon.reloads.map Reload.future).Nodup) (running : reload ∈ w.daemon.reloads) :
    w.daemon.reloads.find? (fun other => decide (other.future = reload.future)) = some reload := by
  cases found : w.daemon.reloads.find? (fun other => decide (other.future = reload.future)) with
  | none =>
    have none := List.find?_eq_none.mp found reload running
    simp at none
  | some other =>
    have same := future_of_find found
    rw [reload_unique distinct running other (mem_of_find?_eq_some found) same]

theorem waiting_reloadEnded (accounted : w.Accounted) : (@World.reloadEnded δ μ φ w reload diffs).waiting reload.key = [] := by
  cases found : w.manager.getModel reload.key with
  | none =>
    rw [reloadEnded_absent found]
    by_contra waits
    obtain ⟨model, isModel⟩ := accounted.coherent.model_of_waiting waits
    cases found.symm.trans isModel
  | some model =>
    rw [reloadEnded_present found]
    exact (RemoteDiffStateManager.waiting_drain _ _ _).trans (if_pos rfl)

theorem waiting_newDiffs (manager : RemoteDiffStateManager δ μ) :
    (w.withManager (manager.drainPendingResponses key).2).waiting key = [] :=
  (RemoteDiffStateManager.waiting_drain _ _ _).trans (if_pos rfl)

theorem truthful (accounted : w.Accounted) (timely : w.Timely) : w.Truthful φ where
  once := by
    have once : (w.answers.map Answer.response).Nodup := accounted.book.once
    rw [← Function.comp_def, ← List.map_map]
    refine once.map_on fun p isAnswer q isOther same => ?_
    have asked : ∀ p ∈ w.answers.map Answer.response, p ∈ w.requests.map Request.response := by
      intro p isAnswer
      rw [← book_responses]
      exact accounted.book.answeredAsked p isAnswer
    obtain ⟨r, isAsked, rfl⟩ := List.mem_map.mp (asked p isAnswer)
    obtain ⟨s, wasAsked, rfl⟩ := List.mem_map.mp (asked q isOther)
    rw [inj_on_of_nodup_map accounted.ids isAsked wasAsked same]
  asked a isAnswer := by
    have asked := accounted.book.answeredAsked _ (List.mem_map_of_mem isAnswer)
    rw [book_responses] at asked
    exact List.mem_map.mp asked
  answered r isAsked kept := by
    rcases accounted.book.accounted r.key r.response (List.mem_map_of_mem isAsked) with withdrawn | answered | waits
    · exact absurd withdrawn kept
    · exact .inl (List.mem_map.mp answered)
    · exact .inr ⟨waits, accounted.busy r.key (ne_nil_of_mem waits)⟩
  reloadAnswers reload running diffs := by
    unfold step
    dsimp only
    rw [find_running timely.distinct running]
    exact waiting_reloadEnded accounted
  loadAnswers key model found := by
    refine ⟨fun detecting => ?_, fun loading changes => ?_⟩
    · unfold step
      simp only [found]
      rw [if_pos detecting, if_neg Bool.false_ne_true, modelStep_newDiffs found _ rfl]
      exact waiting_newDiffs _
    · unfold step
      simp only [found]
      rw [if_pos ((accounted.models key model found).loading loading), modelStep_newDiffs found _ rfl]
      exact waiting_newDiffs _
  carriesDiffs a isAnswer loaded none r isAsked same := by
    obtain ⟨future, source, -, notProduced⟩ := (timely.answers a isAnswer).loaded loaded none r isAsked same
    rw [source]
    exact notProduced
  notLoading a isAnswer loading := (timely.answers a isAnswer).loading loading
  subscribed key tracked := by
    apply accounted.coherent.inhabited key
    rcases tracked with model | pending | conns
    · exact (accounted.coherent.modelled key).mp model
    · exact accounted.coherent.pending key pending
    · exact conns

/-- In every run, whatever the order of its messages and events, requests are answered once and with a finished state, as
long as no reload ends for requests that do not wait for it. -/
theorem run_truthful (actions : List (Action δ μ φ)) (fresh : Trace.Every step Fresh (new : World δ μ) actions)
    (attributed : Trace.Every step Attributed (new : World δ μ) actions) :
    (actions.foldl step (new : World δ μ)).Truthful φ := by
  have keeps : ∀ actions : List (Action δ μ φ), ∀ w : World δ μ, w.Accounted → w.Timely → Trace.Every step Fresh w actions →
      Trace.Every step Attributed w actions → (actions.foldl step w).Accounted ∧ (actions.foldl step w).Timely := by
    intro actions
    induction actions with
    | nil => exact fun w accounted timely _ _ => ⟨accounted, timely⟩
    | cons action actions ih =>
      intro w accounted timely fresh attributed
      exact ih (w.step action) (accounted.step timely.distinct fresh.1 attributed.1)
        (timely.step accounted fresh.1 attributed.1) fresh.2 attributed.2
  obtain ⟨accounted, timely⟩ := keeps actions new new_accounted new_timely fresh attributed
  exact truthful accounted timely

def repo : DiffModelKey := ⟨"/repo", .head⟩

def alice : ConnectionId := ⟨1⟩

def bob : ConnectionId := ⟨2⟩

def opened : List (Action String String String) :=
  [.getDiffState alice ⟨"a"⟩ repo, .repositoryDetected repo true, .loadFinished repo (.ok "diffs"),
    .getDiffState alice ⟨"b"⟩ repo]

/-- The second request waits for its reload and gets the diffs. -/
theorem run_truthful_opened :
    ((opened ++ [Action.reloadCompleted 0 (some "diffs")]).foldl step (new : World String String)).Truthful String := by
  refine run_truthful (opened ++ [.reloadCompleted 0 (some "diffs")]) ?_ ?_
  · refine ⟨?_, trivial, trivial, ?_, trivial, trivial⟩
    · exact not_mem_nil
    · show RequestId.mk "b" ∉ _
      decide +kernel
  · refine ⟨trivial, trivial, trivial, trivial, ?_, trivial⟩
    rintro reload running same model found -
    have isReload : reload = ⟨0, ⟨"b"⟩, repo, false, 1⟩ := by
      have members : (opened.foldl step (new : World String String)).daemon.reloads = [⟨0, ⟨"b"⟩, repo, false, 1⟩] := by rfl
      exact List.mem_singleton.mp (members ▸ running)
    subst isReload
    refine ⟨fun loading => ?_, fun _ none => nomatch none⟩
    have state : model.get = .loaded := by
      have models : ((opened.foldl step (new : World String String)).manager.getModel repo).map LocalDiffStateModel.get =
          some .loaded := by rfl
      rw [show (opened.foldl step (new : World String String)).manager.getModel repo = some model from found] at models
      exact Option.some_inj.mp models
    rw [state] at loading
    cases loading

/-- The reload of a model that was dropped answers a request for the model that took its place, which is loading. -/
theorem stale_reload_answers_loading :
    ¬ ∀ actions : List (Action String String String), Trace.Every step Fresh (new : World String String) actions →
        (actions.foldl step (new : World String String)).Truthful String := by
  intro truthful
  have answers := (truthful
    (opened ++ [.unsubscribeDiffState alice repo, .getDiffState bob ⟨"c"⟩ repo, .repositoryDetected repo true,
      .reloadCompleted 0 (some "diffs")])
    (by
      refine ⟨not_mem_nil, trivial, trivial, ?_, trivial, ?_, trivial, trivial, trivial⟩
      · show RequestId.mk "b" ∉ _
        decide +kernel
      · show RequestId.mk "c" ∉ _
        decide +kernel)).notLoading
    ⟨⟨⟨"c"⟩, bob⟩, .loading, none, some "diffs", 1, some ⟨0, ⟨"b"⟩, repo, false, 1⟩⟩ (mem_of_getLast? rfl) rfl
  obtain ⟨reload, isReload, older⟩ := answers
  cases isReload
  exact absurd older (by decide)

end Warp.CodeReview.World
