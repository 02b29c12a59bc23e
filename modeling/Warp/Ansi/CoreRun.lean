import Warp.Ansi.Processor
import Warp.Ansi.Uniform

namespace Warp.Ansi

open List

variable {P δ : Type}

namespace Vte

variable {vte : Vte P} {p q : P} {bytes more : Bytes}

def after (vte : Vte P) (p : P) (bytes : Bytes) : P := bytes.foldl (fun p byte => (vte.advance p byte).1) p

def events (vte : Vte P) (p : P) : Bytes → List Event
  | [] => []
  | byte :: bytes => (vte.advance p byte).2 ++ vte.events (vte.advance p byte).1 bytes

def Same (vte : Vte P) (p q : P) : Prop := ∀ bytes, vte.events p bytes = vte.events q bytes

theorem after_append : vte.after p (bytes ++ more) = vte.after (vte.after p bytes) more := List.foldl_append

theorem events_append : vte.events p (bytes ++ more) = vte.events p bytes ++ vte.events (vte.after p bytes) more := by
  induction bytes generalizing p with
  | nil => rfl
  | cons byte bytes ih =>
    rw [cons_append, events, ih, events, append_assoc]
    rfl

theorem Same.refl (p : P) : vte.Same p p := fun _ => rfl

theorem Same.symm (same : vte.Same p q) : vte.Same q p := fun bytes => (same bytes).symm

theorem Same.trans {r : P} (first : vte.Same p q) (second : vte.Same q r) : vte.Same p r :=
  fun bytes => (first bytes).trans (second bytes)

theorem Same.after (same : vte.Same p q) (bytes : Bytes) : vte.Same (vte.after p bytes) (vte.after q bytes) := by
  intro more
  have both := same (bytes ++ more)
  rw [events_append, events_append, same bytes] at both
  exact append_cancel_left both

theorem events_singleton {byte : UInt8} : vte.events p [byte] = (vte.advance p byte).2 := append_nil _

end Vte

namespace Call

def isSyncOutput : Call δ → Bool
  | .handler call => call.isSyncOutput
  | _ => false

def isOnFinish : Call δ → Bool
  | .onFinishByteProcessing _ _ => true
  | _ => false

def isEffect (call : Call δ) : Bool := !call.isSyncOutput && !call.isOnFinish

theorem isEffect_of_isOfHook {call : Call δ} (ofHook : call.isOfHook) : call.isEffect := by
  unfold isOfHook at ofHook
  split at ofHook <;> first | rfl | exact absurd ofHook Bool.false_ne_true

theorem isOnFinish_of_isOfHook {call : Call δ} (ofHook : call.isOfHook) : !call.isOnFinish := by
  unfold isOfHook at ofHook
  split at ofHook <;> first | rfl | exact absurd ofHook Bool.false_ne_true

end Call

/-- Two performers that differ in what is no effect of the bytes: what was written back, and calls that are not kept. -/
structure Agrees (alike : Bool → Bool → Prop) (keep : Call δ → Bool) (p q : Performer (List (Call δ))) : Prop where
  precedingChar : p.precedingChar = q.precedingChar
  dcsData : p.dcsData = q.dcsData
  apcData : p.apcData = q.apcData
  tmuxControlMode : p.tmuxControlMode = q.tmuxControlMode
  syncOutput : alike p.syncOutput q.syncOutput
  images : p.images = q.images
  calls : p.handler.filter keep = q.handler.filter keep

namespace Agrees

variable {alike : Bool → Bool → Prop} {keep : Call δ → Bool} {pendingHook : List (Call δ) → Option (DProtoHook δ)}
  {p q : Performer (List (Call δ))}

theorem hooks (agrees : Agrees alike keep p q) (kept : ∀ call : Call δ, call.isOfHook → keep call) :
    p.handler.filter Call.isOfHook = q.handler.filter Call.isOfHook := by
  have both := congrArg (List.filter Call.isOfHook) agrees.calls
  rw [List.filter_filter, List.filter_filter] at both
  have same : (fun call : Call δ => call.isOfHook && keep call) = Call.isOfHook := by
    funext call
    cases ofHook : call.isOfHook with
    | false => rfl
    | true => exact kept call ofHook
  rw [same] at both
  exact both

theorem appended {call : Call δ} {calls calls' : List (Call δ)} (same : calls.filter keep = calls'.filter keep) :
    (calls ++ [call]).filter keep = (calls' ++ [call]).filter keep := by
  rw [filter_append, filter_append, same]

theorem uniform (kept : ∀ call : Call δ, call.isOfHook → keep call) :
    Uniform (recorder pendingHook) (Agrees alike keep) where
  precedingChar := fun agrees => agrees.precedingChar
  dcsData := fun agrees => agrees.dcsData
  apcData := fun agrees => agrees.apcData
  images := fun agrees => agrees.images
  emit := fun _ agrees => { agrees with calls := appended agrees.calls }
  answer := fun agrees => congrArg pendingHook (agrees.hooks kept)
  finish := fun agrees => { agrees with calls := appended agrees.calls }
  precede := fun _ agrees => { agrees with precedingChar := rfl }
  collect := fun _ agrees => { agrees with dcsData := rfl }
  gather := fun _ agrees => { agrees with apcData := rfl }
  identify := fun _ agrees => { agrees with images := rfl }
  write := fun _ agrees => { agrees with }

theorem run {env : Env δ} (agrees : Agrees alike keep p q) (kept : ∀ call : Call δ, call.isOfHook → keep call)
    (active : alike true true) (events : List Event) :
    Option.Rel (Agrees alike keep) (p.run env (recorder pendingHook) events) (q.run env (recorder pendingHook) events) :=
  (uniform kept).run agrees events (fun _ _ _ agrees => { agrees with syncOutput := active, calls := appended agrees.calls })
    fun _ _ _ agrees => { agrees with tmuxControlMode := rfl }

end Agrees

def IsSet (calls : List (Call δ)) : Prop :=
  (calls.filter Call.isSyncOutput).getLast? = some (.handler (.setMode .syncOutput))

def isSetMode : Option (Call δ) → Bool
  | some (.handler (.setMode .syncOutput)) => true
  | _ => false

theorem isSetMode_iff {call : Option (Call δ)} : isSetMode call ↔ call = some (.handler (.setMode .syncOutput)) := by
  refine ⟨fun sets => ?_, fun same => same ▸ rfl⟩
  unfold isSetMode at sets
  split at sets
  · rfl
  · exact absurd sets Bool.false_ne_true

variable {calls : List (Call δ)} {keep : Call δ → Bool}

theorem filter_append_other {call : Call δ} (other : keep call = false) :
    (calls ++ [call]).filter keep = calls.filter keep := by
  rw [filter_append, filter_singleton, other]
  exact append_nil _

theorem isSet_append_other {calls : List (Call δ)} {call : Call δ} (other : call.isSyncOutput = false) :
    IsSet (calls ++ [call]) ↔ IsSet calls := by
  unfold IsSet
  rw [filter_append_other other]

theorem isSet_set : IsSet (calls ++ [.handler (.setMode .syncOutput)]) := by
  unfold IsSet
  rw [filter_append]
  exact List.getLast?_concat

theorem not_isSet_unset : ¬ IsSet (calls ++ [.handler (.unsetMode .syncOutput)]) := by
  unfold IsSet
  rw [filter_append]
  simp [Call.isSyncOutput, HandlerCall.isSyncOutput]

section Modes

variable {env : Env δ} {pendingHook : List (Call δ) → Option (DProtoHook δ)} {p q : Performer (List (Call δ))}
  {events : List Event}

theorem keeps_modes (active begun : Bool) (changes : List (Call δ)) : Keeps (recorder pendingHook) fun p =>
    p.syncOutput = active ∧ p.tmuxControlMode = begun ∧ p.handler.filter Call.isSyncOutput = changes where
  emit := fun other ⟨sync, control, same⟩ => ⟨sync, control, (filter_append_other other).trans same⟩
  finish := fun ⟨sync, control, same⟩ => ⟨sync, control, (filter_append_other rfl).trans same⟩
  precede := fun _ holds => holds
  collect := fun _ holds => holds
  gather := fun _ holds => holds
  identify := fun _ holds => holds
  write := fun _ holds => holds

def Uneventful (env : Env δ) (events : List Event) : Prop :=
  ∀ event ∈ events, event.setsSyncOutput = false ∧ event.startsControlMode env = false

theorem Uneventful.run (uneventful : Uneventful env events) (runs : p.run env (recorder pendingHook) events = some q) :
    q.syncOutput = p.syncOutput ∧ q.tmuxControlMode = p.tmuxControlMode ∧
      q.handler.filter Call.isSyncOutput = p.handler.filter Call.isSyncOutput := by
  refine (keeps_modes p.syncOutput p.tmuxControlMode (p.handler.filter Call.isSyncOutput)).run ?_ ?_ ⟨rfl, rfl, rfl⟩ runs
  · exact fun ⟨event, member, sets⟩ => absurd sets (by rw [(uneventful event member).1]; exact Bool.false_ne_true)
  · exact fun ⟨event, member, starts⟩ => absurd starts (by rw [(uneventful event member).2]; exact Bool.false_ne_true)

theorem run_tmuxControlMode (plain : ∀ event ∈ events, event.startsControlMode env = false)
    (runs : p.run env (recorder pendingHook) events = some q) : q.tmuxControlMode = p.tmuxControlMode := by
  have keeps : Keeps (recorder pendingHook) fun q : Performer (List (Call δ)) => q.tmuxControlMode = p.tmuxControlMode :=
    ⟨fun _ => id, id, fun _ => id, fun _ => id, fun _ => id, fun _ => id, fun _ => id⟩
  refine keeps.run (fun _ {_} => id) ?_ rfl runs
  exact fun ⟨event, member, starts⟩ => absurd starts (by rw [plain event member]; exact Bool.false_ne_true)

theorem run_isSet (runs : p.run env (recorder pendingHook) events = some q) (agree : IsSet p.handler ↔ p.syncOutput) :
    IsSet q.handler ↔ q.syncOutput := by
  have keeps : Keeps (recorder pendingHook) fun q : Performer (List (Call δ)) => IsSet q.handler ↔ q.syncOutput :=
    ⟨fun other agree => (@isSet_append_other δ _ (.handler _) other).trans agree,
      fun agree => (isSet_append_other rfl).trans agree, fun _ => id, fun _ => id, fun _ => id, fun _ => id, fun _ => id⟩
  exact keeps.run (fun _ {_} _ => iff_of_true isSet_set rfl) (fun _ {_} => id) agree runs

theorem setModes_syncOutput {handler : Handler δ (List (Call δ))} {intermediate : Option UInt8} {params : List Param}
    (sets : p.syncOutput ∨ params.any fun param => Mode.fromPrimitive intermediate param.first = some .syncOutput) :
    (p.setModes handler intermediate params).syncOutput := by
  induction params generalizing p with
  | nil => exact sets.resolve_right Bool.false_ne_true
  | cons param params ih =>
    unfold Performer.setModes
    rw [foldl_cons]
    refine ih ?_
    rw [any_cons, Bool.or_eq_true] at sets
    cases isMode : Mode.fromPrimitive intermediate param.first with
    | none =>
      rw [isMode] at sets
      exact sets.imp_right fun sets => sets.resolve_left Bool.false_ne_true
    | some mode =>
      dsimp only
      rw [isMode] at sets
      rw [Bool.or_eq_true, decide_eq_true_eq]
      rcases sets with active | same | later
      · exact .inl (.inl active)
      · exact .inl (.inr (Option.some.inj (of_decide_eq_true same)))
      · exact .inr later

variable {event : Event}

theorem perform_sets (sets : event.setsSyncOutput) (performs : p.perform env (recorder pendingHook) event = some q) :
    q.syncOutput := by
  unfold Event.setsSyncOutput at sets
  split at sets
  · rename_i params intermediates hasIgnored action
    simp only [Bool.and_eq_true, Bool.not_eq_true', decide_eq_true_eq] at sets
    obtain ⟨⟨⟨considered, short⟩, rfl⟩, sets⟩ := sets
    have isSet : p.perform env (recorder pendingHook) (.csiDispatch params intermediates hasIgnored 'h') =
        some (p.setModes (recorder pendingHook) intermediates.head? params) :=
      if_neg (by rw [considered]; simp [short])
    rw [isSet] at performs
    cases performs
    exact setModes_syncOutput (.inr sets)
  · exact absurd sets Bool.false_ne_true

theorem perform_starts (starts : event.startsControlMode env)
    (performs : p.perform env (recorder pendingHook) event = some q) : q.tmuxControlMode := by
  unfold Event.startsControlMode at starts
  split at starts
  · cases performs
    show (p.tmuxControlMode || _) = true
    rw [starts, Bool.or_true]
  · exact absurd starts Bool.false_ne_true

theorem run_of_perform {I : Performer (List (Call δ)) → Prop} (keeps : Keeps (recorder pendingHook) I)
    (activates : ∀ {p}, I p → I (p.activate (recorder pendingHook)))
    (starts : ∀ {p}, I p → I { p with tmuxControlMode := true }) (member : event ∈ events)
    (performs : ∀ {p q : Performer (List (Call δ))}, p.perform env (recorder pendingHook) event = some q → I q)
    (runs : p.run env (recorder pendingHook) events = some q) : I q := by
  obtain ⟨before, after, rfl⟩ := append_of_mem member
  unfold Performer.run at runs
  rw [foldlM_append] at runs
  obtain ⟨reached, -, runs⟩ := Option.bind_eq_some_iff.mp runs
  rw [foldlM_cons] at runs
  obtain ⟨performed, first, runs⟩ := Option.bind_eq_some_iff.mp runs
  exact keeps.run (fun _ => activates) (fun _ => starts) (performs first) runs

theorem run_sets (member : event ∈ events) (sets : event.setsSyncOutput)
    (runs : p.run env (recorder pendingHook) events = some q) : q.syncOutput := by
  have keeps : Keeps (recorder pendingHook) fun p : Performer (List (Call δ)) => p.syncOutput = true :=
    ⟨fun _ => id, id, fun _ => id, fun _ => id, fun _ => id, fun _ => id, fun _ => id⟩
  exact run_of_perform keeps (fun _ => rfl) id member (perform_sets sets) runs

theorem run_starts (member : event ∈ events) (starts : event.startsControlMode env)
    (runs : p.run env (recorder pendingHook) events = some q) : q.tmuxControlMode := by
  have keeps : Keeps (recorder pendingHook) fun p : Performer (List (Call δ)) => p.tmuxControlMode = true :=
    ⟨fun _ => id, id, fun _ => id, fun _ => id, fun _ => id, fun _ => id, fun _ => id⟩
  exact run_of_perform keeps id (fun _ => rfl) member (perform_starts starts) runs

def OfPerformer (calls : List (Call δ)) : Prop :=
  ∀ call ∈ calls, (∃ made, call = .handler made ∧ made ≠ .unsetMode .syncOutput) ∨ call = .finishReceivingHook

theorem ofPerformer_append {calls : List (Call δ)} {call : Call δ} (before : OfPerformer calls)
    (kind : (∃ made, call = .handler made ∧ made ≠ .unsetMode .syncOutput) ∨ call = .finishReceivingHook) :
    OfPerformer (calls ++ [call]) := by
  intro other member
  rcases List.mem_append.mp member with old | new
  · exact before other old
  · rw [List.mem_singleton.mp new]
    exact kind

theorem run_ofPerformer (runs : p.run env (recorder pendingHook) events = some q) (before : OfPerformer p.handler) :
    OfPerformer q.handler := by
  have keeps : Keeps (recorder pendingHook) fun p : Performer (List (Call δ)) => OfPerformer p.handler :=
    ⟨fun other before => ofPerformer_append before (.inl ⟨_, rfl, fun same => by rw [same] at other; cases other⟩),
      fun before => ofPerformer_append before (.inr rfl), fun _ => id, fun _ => id, fun _ => id, fun _ => id, fun _ => id⟩
  exact keeps.run (fun _ {_} before => ofPerformer_append before (.inl ⟨_, rfl, fun same => nomatch same⟩)) (fun _ {_} => id)
    before runs

end Modes

def Outside.Kept (o : Outside δ) (keep : Call δ → Bool) (o' : Outside δ) : Prop :=
  o.images = o'.images ∧ o.calls.filter keep = o'.calls.filter keep

theorem Outside.Kept.call {o o' : Outside δ} (kept : o.Kept keep o') (call : Call δ) :
    (o.call call).Kept keep (o'.call call) := ⟨kept.1, Agrees.appended kept.2⟩

namespace Core

variable {setting : Setting P δ} {core : Core P} {outside : Outside δ} {bytes more : Bytes} {byte : UInt8}
  {reached moved : Core P × Outside δ}

theorem feed_append : feed setting reached (bytes ++ more) = (feed setting reached bytes).bind (feed setting · more) :=
  foldlM_append

theorem feed_singleton : feed setting reached [byte] = advance setting reached byte := by
  unfold feed
  rw [foldlM_cons]
  exact bind_pure _

theorem feed_eq : feed setting reached bytes = ((reached.1.performer reached.2).run setting.env setting.handler
    (setting.vte.events reached.1.parser bytes)).map (ofPerformer (setting.vte.after reached.1.parser bytes)) := by
  induction bytes generalizing reached with
  | nil => rfl
  | cons byte bytes ih =>
    show (advance setting reached byte).bind (feed setting · bytes) = _
    unfold advance Vte.events Performer.run
    rw [Option.bind_map, foldlM_append]
    show _ = Option.map _ (Option.bind _ _)
    rw [Option.map_bind]
    exact congrArg _ (funext fun performer => ih)

theorem feed_agrees {alike : Bool → Bool → Prop} {keep : Call δ → Bool} {other : Core P × Outside δ}
    (agrees : Agrees alike keep (reached.1.performer reached.2) (other.1.performer other.2))
    (kept : ∀ call : Call δ, call.isOfHook → keep call) (active : alike true true)
    (same : setting.vte.events reached.1.parser bytes = setting.vte.events other.1.parser bytes) :
    Option.Rel (fun x y => Agrees alike keep (x.1.performer x.2) (y.1.performer y.2) ∧
        x.1.parser = setting.vte.after reached.1.parser bytes ∧ y.1.parser = setting.vte.after other.1.parser bytes)
      (feed setting reached bytes) (feed setting other bytes) := by
  rw [feed_eq, feed_eq, same]
  have both := @Agrees.run _ _ _ setting.pendingHook _ _ setting.env agrees kept active
    (setting.vte.events other.1.parser bytes)
  unfold Setting.handler
  generalize (reached.1.performer reached.2).run _ _ _ = x at both ⊢
  generalize (other.1.performer other.2).run _ _ _ = y at both ⊢
  cases both with
  | none => exact .none
  | some agrees => exact .some ⟨agrees, rfl, rfl⟩

theorem feed_kept {keep : Call δ → Bool} {o o' : Outside δ} (ofHook : ∀ call : Call δ, call.isOfHook → keep call)
    (kept : o.Kept keep o') :
    Option.Rel (fun x y => x.1 = y.1 ∧ x.2.Kept keep y.2) (feed setting (core, o) bytes) (feed setting (core, o') bytes) := by
  have agrees : Agrees Eq keep (core.performer o) (core.performer o') := ⟨rfl, rfl, rfl, rfl, rfl, kept.1, kept.2⟩
  have both := @feed_agrees _ _ setting bytes (core, o) _ _ (core, o') agrees ofHook rfl rfl
  generalize feed setting (core, o) bytes = x at both ⊢
  generalize feed setting (core, o') bytes = y at both ⊢
  cases both with
  | none => exact .none
  | @some x y both =>
    obtain ⟨⟨precedingChar, dcsData, apcData, control, sync, images, calls⟩, parser, parser'⟩ := both
    obtain ⟨⟨p, a, b, c, d, e⟩, o⟩ := x
    obtain ⟨⟨p', a', b', c', d', e'⟩, o'⟩ := y
    cases precedingChar
    cases dcsData
    cases apcData
    cases control
    cases sync
    cases parser.trans parser'.symm
    exact .some ⟨rfl, images, calls⟩

theorem feed_some (feeds : feed setting reached bytes = some moved) :
    (reached.1.performer reached.2).run setting.env (recorder setting.pendingHook)
        (setting.vte.events reached.1.parser bytes) = some (moved.1.performer moved.2) ∧
      moved.1.parser = setting.vte.after reached.1.parser bytes := by
  rw [feed_eq] at feeds
  obtain ⟨performer, runs, rfl⟩ := Option.map_eq_some_iff.mp feeds
  exact ⟨runs, rfl⟩

/-- Calls are added and never taken back. -/
theorem advance_calls (advances : advance setting reached byte = some moved) : reached.2.calls <+: moved.2.calls := by
  have keeps : Keeps (recorder setting.pendingHook) fun p : Performer (List (Call δ)) => reached.2.calls <+: p.handler :=
    ⟨fun _ before => before.trans (prefix_append _ _), fun before => before.trans (prefix_append _ _), fun _ => id,
      fun _ => id, fun _ => id, fun _ => id, fun _ => id⟩
  have runs := (feed_some (feed_singleton.trans advances)).1
  exact keeps.run (fun _ {_} before => before.trans (prefix_append _ _)) (fun _ {_} => id) prefix_rfl runs

end Core

end Warp.Ansi
